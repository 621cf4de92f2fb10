import EternalTerminal.Core.OutputWindow
import EternalTerminal.Core.WriterHistory

/-!
# Core — the delivery backlog

What a `BackedWriter` tells about the packets its peer has not acknowledged: `delivery_backlog`, from which the output
window takes the unacknowledged payload.  A write adds to the count; an acknowledgement sums up the backup again, of
which the hard caps may have taken a part.

A write is reserved and committed in two calls, between which anything else may be called.

Main results: `delivery_backlog_exact`, `dropped_packets_uncounted`.
-/

namespace EternalTerminal
open Machine History BackedWriter List
open Relation (ReflTransGen)

/-- The peer's latest acknowledged sequence and the wire bytes written since. -/
def BackedWriter.deliveryBacklog (w : BackedWriter) : Option (Int × Int) :=
  w.acknowledged.map fun acknowledged => (acknowledged, w.unacknowledgedBytes)

/-! ### Runs -/

/-- A packet with its frame. -/
structure AcceptedPacket where
  payload : Bytes
  frame : Bytes

/-- The length of the packet with its tag. -/
def AcceptedPacket.wire (packet : AcceptedPacket) : Int := (2 + packet.payload.length + macLen : Nat)

/-- A writer with what it really accepted. -/
structure BacklogRun where
  writer : BackedWriter
  /-- The writes that are reserved and not committed. -/
  reserved : List ReservedWrite
  /-- The packets accepted since the last reset, oldest first: the first has sequence number 1. -/
  accepted : List AcceptedPacket

/-- A call on the writer. -/
inductive BacklogOp where
  | reserve (header : UInt8) (payloadLen : Nat)
  | commit (index : Nat) (payload : Bytes)
  | acknowledge (acknowledged : Int)
  | revive
  | invalidate
  | reset (salt : Bytes)

namespace BacklogRun

def start (crypto : CryptoHandler) (connected : Bool) : BacklogRun := ⟨.new crypto connected, [], []⟩

def committed (S : Sodium) (s : BacklogRun) (index : Nat) (reserved : ReservedWrite) (payload : Bytes) : BacklogRun where
  writer := (s.writer.commitWrite reserved (reserved.encrypt S payload)).2
  reserved := s.reserved.eraseIdx index
  accepted := s.accepted ++ [⟨payload, reserved.encrypt S payload⟩]

/-- One call.  A reserved write is committed with a payload of the length it was reserved for. -/
def apply (S : Sodium) (s : BacklogRun) : BacklogOp → Option BacklogRun
  | .reserve header payloadLen =>
    match s.writer.reserveWrite header payloadLen with
    | none => some s
    | some (reserved, writer) => some { s with writer := writer, reserved := s.reserved ++ [reserved] }
  | .commit index payload =>
    match s.reserved[index]? with
    | none => none
    | some reserved =>
      if 2 + payload.length + macLen = reserved.packetWireLen then some (s.committed S index reserved payload)
      else none
  | .acknowledge acknowledged => some { s with writer := s.writer.acknowledge acknowledged }
  | .revive => some { s with writer := s.writer.revive }
  | .invalidate => some { s with writer := s.writer.invalidate }
  | .reset salt =>
    match s.writer.reset S salt with
    | .ok writer => some { s with writer := writer, accepted := [] }
    | .error _ => some s

/-- The writer does not ignore the acknowledgement. -/
def Heeds (s : BacklogRun) (acknowledged : Int) : Prop :=
  s.writer.connected = true ∧ 0 ≤ acknowledged ∧ acknowledged ≤ s.writer.sequence

/-- An acknowledgement finds every packet after it in the backup, and a write does not take the counters out of their
range. -/
def Retains (s : BacklogRun) : BacklogOp → Prop
  | .acknowledge acknowledged =>
    s.Heeds acknowledged → s.writer.sequence - acknowledged ≤ s.writer.backup.length
  | .commit _ payload =>
    s.writer.backupSize + (2 + payload.length + macLen : Nat) ≤ i64Max ∧
      s.writer.unacknowledgedBytes + (2 + payload.length + macLen : Nat) ≤ i64Max
  | _ => True

instance (s : BacklogRun) (acknowledged : Int) : Decidable (s.Heeds acknowledged) :=
  inferInstanceAs (Decidable (_ ∧ _))

instance (s : BacklogRun) (op : BacklogOp) : Decidable (s.Retains op) := by
  cases op <;> unfold Retains <;> infer_instance

end BacklogRun

/-- One call that is possible. -/
inductive BacklogCall (S : Sodium) : BacklogRun → BacklogRun → Prop where
  | call (s : BacklogRun) (op : BacklogOp) (s' : BacklogRun) (h : s.apply S op = some s') : BacklogCall S s s'

/-- A call that meets the condition. -/
inductive BacklogStep (S : Sodium) : BacklogRun → BacklogRun → Prop where
  | step (s : BacklogRun) (op : BacklogOp) (s' : BacklogRun) (hretains : s.Retains op) (h : s.apply S op = some s') :
      BacklogStep S s s'

/-! ### What the writer keeps of the accepted packets -/

/-- The backup is the newest part of what was accepted. -/
structure BacklogRun.Recorded (s : BacklogRun) : Prop where
  reserved : ∀ r ∈ s.reserved, r.framePrefix.length = 6
  sequence_eq : s.writer.sequence = s.accepted.length
  newest : s.writer.backup <+: (s.accepted.map (·.frame)).reverse
  size_eq : s.writer.backupSize = total wireLen s.writer.backup
  framed : ∀ packet ∈ s.accepted, wireLen packet.frame = packet.wire

theorem ReservedWrite.wireLen_encrypt {S : Sodium} {r : ReservedWrite} {payload : Bytes}
    (hhead : r.framePrefix.length = 6) : wireLen (r.encrypt S payload) = (2 + payload.length + macLen : Nat) := by
  simp only [wireLen, ReservedWrite.encrypt, CryptoHandler.encryptDetached, length_append, hhead,
    Sodium.length_secretbox]
  omega

theorem total_frames {packets : List AcceptedPacket} (h : ∀ packet ∈ packets, wireLen packet.frame = packet.wire) :
    total wireLen (packets.map (·.frame)) = total AcceptedPacket.wire packets := by
  unfold total
  rw [map_map]
  exact congrArg List.sum (map_congr_left h)

namespace BackedWriter
variable {w : BackedWriter} {reserved : ReservedWrite} {frame : Bytes}

/-- A commit pushes its frame and then may cut the backup; in a connected writer the hard caps hold after it. -/
theorem commitWrite_cut (hlen : wireLen frame = reserved.packetWireLen)
    (hsize : w.backupSize = total wireLen w.backup) :
    let w' := (w.commitWrite reserved frame).2
    w'.sequence = w.sequence + 1 ∧ w'.acknowledged = w.acknowledged ∧ w'.connected = w.connected ∧
      w'.unacknowledgedBytes = w.unacknowledgedBytes + reserved.packetWireLen ∧
      (∃ n, w'.backup = (frame :: w.backup).take n ∧ w'.backupSize = total wireLen ((frame :: w.backup).take n)) ∧
      (w.connected = true → w'.backupSize ≤ maxBackupBytes) := by
  cases hc : w.connected with
  | true =>
    obtain ⟨n, -, hcommit, hstop, -⟩ := commitWrite_connected_cut hc hlen hsize
    rw [hcommit]
    refine ⟨rfl, rfl, hc, rfl, ⟨n, rfl, rfl⟩, fun _ => ?_⟩
    rcases hstop with rfl | hfit
    · exact show (0 : Int) ≤ maxBackupBytes by decide
    · simp only [overHardCaps, Bool.or_eq_false_iff, decide_eq_false_iff_not, not_lt] at hfit
      exact hfit.1
  | false =>
    have hcommit : w.commitWrite reserved frame = (.bufferedOnly, { w with
          unacknowledgedBytes := w.unacknowledgedBytes + reserved.packetWireLen
          backup := frame :: w.backup
          backupSize := w.backupSize + reserved.packetWireLen
          sequence := w.sequence + 1
          disconnectedBytes := w.disconnectedBytes + reserved.packetWireLen
          disconnectedPackets := w.disconnectedPackets + 1 }) := by
      simp [commitWrite, hc]
    rw [hcommit]
    refine ⟨rfl, rfl, hc, rfl, ⟨w.backup.length + 1, ?_, ?_⟩, by simp⟩
    · rw [take_of_length_le (by simp)]
    · rw [take_of_length_le (by simp), total_cons, hlen, hsize]
      exact Int.add_comm _ _

/-- What an acknowledgement counts. -/
theorem acknowledge_bytes {acknowledged : Int} (hconn : w.connected = true) (hpos : 0 ≤ acknowledged)
    (hle : acknowledged ≤ w.sequence) :
    (w.acknowledge acknowledged).acknowledged = some acknowledged ∧
      (w.acknowledge acknowledged).unacknowledgedBytes =
        total wireLen (w.backup.take (w.sequence - acknowledged).toNat) := by
  rw [acknowledge, if_neg (by simp [hconn]; omega), usizeOfI64_getD (by omega)]
  exact ⟨rfl, rfl⟩

theorem acknowledge_ignored {acknowledged : Int}
    (h : ¬ (w.connected = true ∧ 0 ≤ acknowledged ∧ acknowledged ≤ w.sequence)) : w.acknowledge acknowledged = w := by
  rw [acknowledge, if_pos]
  by_contra hnot
  simp only [Bool.not_eq_true', not_or, Bool.not_eq_false, not_lt] at hnot
  exact h ⟨hnot.1, hnot.2⟩

end BackedWriter

namespace BacklogRun
variable {S : Sodium} {s s' : BacklogRun}

namespace Recorded

section
variable (h : s.Recorded)
include h

theorem length_le : s.writer.backup.length ≤ s.accepted.length := by
  simpa using h.newest.length_le

/-- The newest frames of the backup are those of the packets accepted last. -/
theorem take_backup {m : Nat} (hm : m ≤ s.writer.backup.length) :
    s.writer.backup.take m = ((s.accepted.drop (s.accepted.length - m)).map (·.frame)).reverse := by
  rw [prefix_iff_eq_take.mp h.newest, take_take, Nat.min_eq_left hm, take_reverse, map_drop, length_map]

theorem total_take {m : Nat} (hm : m ≤ s.writer.backup.length) :
    total wireLen (s.writer.backup.take m) = total AcceptedPacket.wire (s.accepted.drop (s.accepted.length - m)) := by
  rw [h.take_backup hm, total_reverse]
  exact total_frames fun packet hpkt => h.framed packet (mem_of_mem_drop hpkt)

/-- A writer that lost only old frames. -/
theorem trim {writer : BackedWriter} (n : Nat) (hseq : writer.sequence = s.writer.sequence)
    (hbackup : writer.backup = s.writer.backup.take n)
    (hsize : writer.backupSize = total wireLen (s.writer.backup.take n)) :
    Recorded { s with writer := writer } where
  reserved := h.reserved
  sequence_eq := hseq.trans h.sequence_eq
  newest := hbackup ▸ (List.take_prefix n _).trans h.newest
  size_eq := hsize.trans (by rw [hbackup])
  framed := h.framed

theorem same {writer : BackedWriter} (hseq : writer.sequence = s.writer.sequence)
    (hbackup : writer.backup = s.writer.backup) (hsize : writer.backupSize = s.writer.backupSize) :
    Recorded { s with writer := writer } :=
  h.trim s.writer.backup.length hseq (by rw [hbackup, take_length])
    (by rw [hsize, take_length, h.size_eq])

end

theorem start (crypto : CryptoHandler) (connected : Bool) : (BacklogRun.start crypto connected).Recorded where
  reserved := nofun
  sequence_eq := rfl
  newest := List.nil_prefix
  size_eq := rfl
  framed := nofun

section
variable (h : s.Recorded)
include h

theorem reserve {header : UInt8} {payloadLen : Nat} (he : s.apply S (.reserve header payloadLen) = some s') :
    s'.Recorded ∧ s'.accepted = s.accepted ∧ s'.writer.acknowledged = s.writer.acknowledged ∧
      s'.writer.unacknowledgedBytes = s.writer.unacknowledgedBytes ∧ s'.writer.backupSize = s.writer.backupSize := by
  rw [apply] at he
  unfold reserveWrite at he
  split at he
  · cases he
    exact ⟨h, rfl, rfl, rfl, rfl⟩
  rename_i r writer hres
  cases he
  split at hres
  · cases hres
  cases hres
  refine ⟨{ h with reserved := forall_mem_append.mpr ⟨h.reserved, forall_mem_singleton.mpr ?_⟩ }, rfl, rfl, rfl, rfl⟩
  simp

theorem commit {index : Nat} {payload : Bytes} {r : ReservedWrite} (hr : s.reserved[index]? = some r)
    (hlen : 2 + payload.length + macLen = r.packetWireLen) : (s.committed S index r payload).Recorded := by
  have hfr : wireLen (r.encrypt S payload) = r.packetWireLen := by
    rw [ReservedWrite.wireLen_encrypt (h.reserved r (mem_of_getElem? hr)), hlen]
  obtain ⟨hseq, -, -, -, ⟨n, hbackup, hsize⟩, -⟩ := commitWrite_cut hfr h.size_eq
  refine ⟨fun r' hr' => h.reserved r' (mem_of_mem_eraseIdx hr'), ?_, ?_, ?_, fun packet hpkt => ?_⟩
  · rw [committed, hseq, h.sequence_eq, length_append]
    rfl
  · dsimp only [committed]
    rw [hbackup, map_append, reverse_append]
    exact (List.take_prefix n _).trans ((prefix_cons_inj _).mpr h.newest)
  · dsimp only [committed]
    rw [hsize, hbackup]
  · rcases mem_append.mp hpkt with hold | hnew
    · exact h.framed packet hold
    · cases mem_singleton.mp hnew
      rw [hfr, ← hlen]
      rfl

theorem acknowledge (acknowledged : Int) : Recorded { s with writer := s.writer.acknowledge acknowledged } := by
  rcases acknowledge_cut acknowledged h.size_eq with hsame | ⟨-, n, -, -, u, hcut⟩
  · rw [hsame]
    exact h
  · exact h.trim n (by rw [hcut]) (by rw [hcut]) (by rw [hcut])

theorem revive : Recorded { s with writer := s.writer.revive } := by
  obtain ⟨n, -, hcut, -⟩ := revive_cut h.size_eq
  exact h.trim n (by rw [hcut]) (by rw [hcut]) (by rw [hcut])

theorem backup_total_le (m : Nat) : total wireLen (s.writer.backup.take m) ≤ s.writer.backupSize :=
  h.size_eq ▸ total_take_le wireLen (fun frame _ => wireLen_nonneg frame) m

/-- **When an acknowledgement counts exactly**: if and only if the backup still has every packet after it. -/
theorem acknowledge_exact_iff {acknowledged : Int} (hheed : s.Heeds acknowledged) :
    (s.writer.acknowledge acknowledged).unacknowledgedBytes =
        total AcceptedPacket.wire (s.accepted.drop acknowledged.toNat) ↔
      s.writer.sequence - acknowledged ≤ s.writer.backup.length := by
  obtain ⟨hconn, hpos, hle⟩ := hheed
  have hseq := h.sequence_eq
  have hlen := h.length_le
  rw [(acknowledge_bytes hconn hpos hle).2]
  constructor
  · intro hexact
    by_contra hsh
    -- the packets between the acknowledgement and the backup weigh something
    rw [take_of_length_le (by omega), ← take_length (l := s.writer.backup), h.total_take (Nat.le_refl _)]
      at hexact
    have hspl : s.accepted.drop acknowledged.toNat =
        (s.accepted.drop acknowledged.toNat).take (s.accepted.length - s.writer.backup.length - acknowledged.toNat) ++
          s.accepted.drop (s.accepted.length - s.writer.backup.length) := by
      conv_lhs => rw [← take_append_drop
        (s.accepted.length - s.writer.backup.length - acknowledged.toNat) (s.accepted.drop acknowledged.toNat)]
      rw [drop_drop]
      congr 2
      omega
    rw [hspl, total_append] at hexact
    have hweight := length_mul_le_total AcceptedPacket.wire (c := 1)
      (l := (s.accepted.drop acknowledged.toNat).take
        (s.accepted.length - s.writer.backup.length - acknowledged.toNat))
      fun packet _ => by unfold AcceptedPacket.wire; omega
    rw [length_take, length_drop] at hweight
    omega
  · intro hretained
    rw [h.total_take (by omega)]
    congr 2
    omega

end

end Recorded

/-! ### The count over a run -/

/-- The backlog is exact, and the counters are in their range. -/
structure Exact (s : BacklogRun) : Prop where
  recorded : s.Recorded
  size_le : s.writer.backupSize ≤ i64Max
  unacknowledged_le : s.writer.unacknowledgedBytes ≤ i64Max
  exact : ∀ acknowledged ∈ s.writer.acknowledged, 0 ≤ acknowledged ∧ acknowledged ≤ s.writer.sequence ∧
    s.writer.unacknowledgedBytes = total AcceptedPacket.wire (s.accepted.drop acknowledged.toNat)

namespace Exact

theorem start (crypto : CryptoHandler) (connected : Bool) : (BacklogRun.start crypto connected).Exact where
  recorded := .start crypto connected
  size_le := show (0 : Int) ≤ i64Max by decide
  unacknowledged_le := show (0 : Int) ≤ i64Max by decide
  exact _ h := absurd h (by simp [BacklogRun.start, BackedWriter.new])

theorem commit (h : s.Exact) {index : Nat} {payload : Bytes} {r : ReservedWrite} (hr : s.reserved[index]? = some r)
    (hlen : 2 + payload.length + macLen = r.packetWireLen) (hret : s.Retains (.commit index payload)) :
    (s.committed S index r payload).Exact := by
  have hfr : wireLen (r.encrypt S payload) = r.packetWireLen := by
    rw [ReservedWrite.wireLen_encrypt (h.recorded.reserved r (mem_of_getElem? hr)), hlen]
  obtain ⟨hseq, hack, -, hbs, ⟨n, -, hsize⟩, -⟩ := commitWrite_cut hfr h.recorded.size_eq
  obtain ⟨hroom, hroom'⟩ := hret
  rw [hlen] at hroom hroom'
  refine ⟨h.recorded.commit hr hlen, ?_, hbs.le.trans hroom', fun acknowledged hmem => ?_⟩
  · refine hsize.le.trans (le_trans ?_ hroom)
    have hle := total_take_le wireLen (l := r.encrypt S payload :: s.writer.backup)
      (fun frame _ => wireLen_nonneg frame) n
    rw [total_cons, hfr, ← h.recorded.size_eq, Int.add_comm] at hle
    exact hle
  · dsimp only [committed] at hmem ⊢
    rw [hack] at hmem
    obtain ⟨hpos, hle, hexact⟩ := h.exact acknowledged hmem
    have hin : acknowledged.toNat ≤ s.accepted.length := by
      have := h.recorded.sequence_eq
      omega
    refine ⟨hpos, by omega, ?_⟩
    rw [hbs, hexact, drop_append_of_le_length hin, total_append, total_cons, total_nil, ← hlen]
    simp [AcceptedPacket.wire]

theorem acknowledge (h : s.Exact) {acknowledged : Int} (hret : s.Retains (.acknowledge acknowledged)) :
    Exact { s with writer := s.writer.acknowledge acknowledged } := by
  have hrec := h.recorded.acknowledge acknowledged
  by_cases hheed : s.Heeds acknowledged
  · obtain ⟨hack, hbs⟩ := acknowledge_bytes hheed.1 hheed.2.1 hheed.2.2
    have hseq : (s.writer.acknowledge acknowledged).sequence = s.writer.sequence :=
      hrec.sequence_eq.trans h.recorded.sequence_eq.symm
    refine ⟨hrec, ?_, ?_, fun a ha => ?_⟩
    · refine le_trans ?_ h.size_le
      rcases acknowledge_cut acknowledged h.recorded.size_eq with hsame | ⟨-, n, -, -, u, hcut⟩
      · exact (congrArg BackedWriter.backupSize hsame).le
      · rw [hcut]
        exact h.recorded.backup_total_le n
    · rw [hbs]
      exact (h.recorded.backup_total_le _).trans h.size_le
    · dsimp only at ha ⊢
      rw [hack] at ha
      cases ha
      rw [hseq]
      exact ⟨hheed.2.1, hheed.2.2, (h.recorded.acknowledge_exact_iff hheed).mpr (hret hheed)⟩
  · rw [acknowledge_ignored hheed]
    exact h

theorem apply (h : s.Exact) {op : BacklogOp} (hret : s.Retains op) (he : s.apply S op = some s') : s'.Exact := by
  cases op with
  | reserve header payloadLen =>
    obtain ⟨hrec, hacc, hack, hbs, hsize⟩ := h.recorded.reserve he
    refine ⟨hrec, hsize ▸ h.size_le, hbs ▸ h.unacknowledged_le, fun a ha => ?_⟩
    rw [hrec.sequence_eq, hacc, hbs, ← h.recorded.sequence_eq]
    exact h.exact a (hack ▸ ha)
  | commit index payload =>
    rw [BacklogRun.apply] at he
    split at he
    · cases he
    rename_i r hr
    obtain ⟨hlen, rfl⟩ := Option.ite_some_none_eq_some.mp he
    exact h.commit hr hlen hret
  | acknowledge acknowledged =>
    cases he
    exact h.acknowledge hret
  | revive =>
    cases he
    obtain ⟨n, -, hcut, -⟩ := revive_cut h.recorded.size_eq
    refine ⟨h.recorded.revive, ?_, ?_, ?_⟩
    all_goals rw [hcut]
    · exact (h.recorded.backup_total_le n).trans h.size_le
    · exact h.unacknowledged_le
    · exact h.exact
  | invalidate =>
    cases he
    exact { h with recorded := h.recorded.same rfl rfl rfl }
  | reset salt =>
    rw [BacklogRun.apply] at he
    rcases reset_cases S s.writer salt with ⟨e, hfail⟩ | ⟨crypto, hok⟩
    · rw [hfail] at he
      cases he
      exact h
    · rw [hok] at he
      cases he
      exact ⟨⟨h.recorded.reserved, rfl, List.nil_prefix, rfl, nofun⟩, (start crypto false).size_le,
        (start crypto false).unacknowledged_le, fun _ h => absurd h (by simp [BackedWriter.new])⟩

theorem of_reach {crypto : CryptoHandler} {connected : Bool}
    (hrun : ReflTransGen (BacklogStep S) (.start crypto connected) s) : s.Exact :=
  reach_invariant (P := Exact) hrun (start crypto connected) fun _ _ h hstep => by
    obtain ⟨op, _, hret, he⟩ := hstep
    exact h.apply hret he

end Exact

end BacklogRun

theorem total_wire (packets : List AcceptedPacket) :
    total AcceptedPacket.wire packets =
      (packets.map (·.payload.length)).sum + (packets.length : Int) * packetOverhead := by
  induction packets with
  | nil => rfl
  | cons packet packets ih =>
    rw [total_cons, ih, map_cons, sum_cons, length_cons, AcceptedPacket.wire]
    push_cast
    unfold packetOverhead
    ring

/-- Taking the overhead off the wire bytes of some packets leaves their payload. -/
theorem unacknowledgedPayload_eq {packets : List AcceptedPacket} {acknowledged sequence : Int}
    (hnumber : sequence - acknowledged = packets.length) (hrng : total AcceptedPacket.wire packets ≤ i64Max) :
    unacknowledgedPayload acknowledged (total AcceptedPacket.wire packets) sequence =
      (packets.map (·.payload.length)).sum := by
  have hoverhead : packetOverhead = 18 := rfl
  have hmax : i64Max = 2 ^ 63 - 1 := rfl
  rw [total_wire, hoverhead] at hrng
  rw [total_wire]
  generalize (packets.map (·.payload.length)).sum = payload at hrng ⊢
  -- each packet weighs its overhead, so the number of packets and their overhead are in range too
  have hpkts : max (saturatingSub sequence acknowledged) 0 = packets.length := by
    rw [saturatingSub_eq (by omega) (by omega), hnumber]
    omega
  have hmul : saturatingMul packets.length packetOverhead = packets.length * packetOverhead := by
    rw [hoverhead, saturatingMul, min_eq_right (by omega), max_eq_right (by omega)]
  unfold unacknowledgedPayload
  simp only [hpkts, hmul]
  rw [hoverhead, saturatingSub_eq (by omega) (by omega), Int.add_sub_cancel, usizeOfI64, if_pos (by omega)]
  rfl

/-- **The backlog is exact** in every state of a run in which every acknowledgement finds the packets after it in the
backup: the wire bytes are those of the packets with a sequence number above the acknowledged one, and the output
window takes from them exactly their payload. -/
theorem delivery_backlog_exact {S : Sodium} {crypto : CryptoHandler} {connected : Bool} {s : BacklogRun}
    (hrun : ReflTransGen (BacklogStep S) (.start crypto connected) s) {acknowledged bytes : Int}
    (hbacklog : s.writer.deliveryBacklog = some (acknowledged, bytes)) :
    0 ≤ acknowledged ∧
      bytes = ((s.accepted.drop acknowledged.toNat).map fun packet =>
        ((2 + packet.payload.length + macLen : Nat) : Int)).sum ∧
      unacknowledgedPayload acknowledged bytes s.writer.sequence =
        ((s.accepted.drop acknowledged.toNat).map (·.payload.length)).sum := by
  have h := BacklogRun.Exact.of_reach hrun
  obtain ⟨a, ha, heq⟩ := Option.map_eq_some_iff.mp hbacklog
  cases heq
  obtain ⟨hpos, hle, hexact⟩ := h.exact acknowledged ha
  have hseq := h.recorded.sequence_eq
  refine ⟨hpos, hexact, ?_⟩
  have hrange := h.unacknowledged_le
  rw [hexact] at hrange ⊢
  exact unacknowledgedPayload_eq (by rw [length_drop]; omega) hrange

def backlogAfter (S : Sodium) (start : BacklogRun) (ops : List BacklogOp) : BacklogRun :=
  (execEvents (fun s op => if s.Retains op then s.apply S op else none) start ops).getD start

/-- Three packets, of which the peer acknowledges one between the reservation and the commit of the last. -/
def backlogOps : List BacklogOp :=
  [.reserve 7 3, .commit 0 [1, 2, 3], .reserve 7 0, .commit 0 [], .reserve 8 2, .acknowledge 1, .commit 0 [4, 5]]

theorem delivery_backlog_exact_acknowledged :
    let s := backlogAfter Aead.plainSodium (.start (.new zeroKey 0) true) backlogOps
    s.writer.deliveryBacklog = some (1, 38) ∧ unacknowledgedPayload 1 38 s.writer.sequence = 2 ∧
      unacknowledgedPayload 1 38 s.writer.sequence = ((s.accepted.drop 1).map (·.payload.length)).sum :=
  ⟨by decide +kernel, by decide +kernel,
    (delivery_backlog_exact (reach_guarded .step backlogOps (by decide +kernel)) (by decide +kernel)).2.2⟩

/-! ### A backlog that forgets -/

namespace BacklogRun
variable {S : Sodium} {s : BacklogRun}

/-- A packet that a connected writer takes, reserved and committed at once. -/
theorem write_connected (h : s.Recorded) (hconn : s.writer.connected = true) (hnone : s.reserved = [])
    (header : UInt8) (payload : Bytes) :
    ∃ s', ReflTransGen (BacklogCall S) s s' ∧ s'.Recorded ∧ s'.writer.connected = true ∧ s'.reserved = [] ∧
      s'.accepted.map (·.payload) = s.accepted.map (·.payload) ++ [payload] ∧
      s'.writer.backupSize ≤ maxBackupBytes := by
  have hres : s.apply S (.reserve header payload.length) =
      some { s with
        writer := { s.writer with crypto := s.writer.crypto.bump }
        reserved := [⟨Bytes.beBytes 4 (2 + payload.length + macLen) ++ [1, header], s.writer.crypto.bump.nonce,
          s.writer.crypto.baseKey, 2 + payload.length + macLen⟩] } := by
    simp only [apply, reserveWrite, hconn, hnone]
    rfl
  have hrec := (h.reserve hres).1
  generalize hs₁ : ({ s with
    writer := { s.writer with crypto := s.writer.crypto.bump }
    reserved := [⟨Bytes.beBytes 4 (2 + payload.length + macLen) ++ [1, header], s.writer.crypto.bump.nonce,
      s.writer.crypto.baseKey, 2 + payload.length + macLen⟩] } : BacklogRun) = s₁ at hres hrec
  obtain ⟨r, hr, hlen⟩ : ∃ r, s₁.reserved = [r] ∧ 2 + payload.length + macLen = r.packetWireLen :=
    ⟨_, by rw [← hs₁], rfl⟩
  have hidx : s₁.reserved[0]? = some r := by rw [hr]; rfl
  have hfr : wireLen (r.encrypt S payload) = r.packetWireLen := by
    rw [ReservedWrite.wireLen_encrypt (hrec.reserved r (by simp [hr])), hlen]
  have hconn₁ : s₁.writer.connected = true := by rw [← hs₁]; exact hconn
  obtain ⟨-, -, hstays, -, -, hcaps⟩ := commitWrite_cut hfr hrec.size_eq
  have hcommit : s₁.apply S (.commit 0 payload) = some (s₁.committed S 0 r payload) := by
    rw [apply, hidx]
    exact if_pos hlen
  refine ⟨s₁.committed S 0 r payload, (ReflTransGen.single (.call _ _ _ hres)).tail (.call _ _ _ hcommit),
    hrec.commit hidx hlen, hstays.trans hconn₁, ?_, ?_, hcaps hconn₁⟩
  · rw [committed, hr]
    rfl
  · rw [committed, map_append, ← hs₁]
    rfl

end BacklogRun

/-- A payload of 33 MiB. -/
def bulkPayload : Bytes := List.replicate (33 * 2 ^ 20) 0

/-- **The backlog forgets packets that the hard caps dropped**: of two packets of 33 MiB only the second stays in the
backup, and after an acknowledgement of neither the backlog has less than both. -/
theorem dropped_packets_uncounted :
    ∃ s, ReflTransGen (BacklogCall Aead.plainSodium) (.start (.new zeroKey 0) true) s ∧
      s.accepted.map (·.payload) = [bulkPayload, bulkPayload] ∧
      ∃ bytes, s.writer.deliveryBacklog = some (0, bytes) ∧
        bytes ≠ ((s.accepted.drop 0).map fun packet => ((2 + packet.payload.length + macLen : Nat) : Int)).sum := by
  obtain ⟨s₁, hrun₁, hrecorded₁, hconnected₁, hreserved₁, haccepted₁, -⟩ :=
    BacklogRun.write_connected (S := Aead.plainSodium) (.start (.new zeroKey 0) true) rfl rfl 7 bulkPayload
  obtain ⟨s₂, hrun₂, hrecorded₂, hconnected₂, -, haccepted₂, hcaps⟩ :=
    BacklogRun.write_connected (S := Aead.plainSodium) hrecorded₁ hconnected₁ hreserved₁ 7 bulkPayload
  rw [haccepted₁] at haccepted₂
  have hlength : s₂.accepted.length = 2 := by
    have := congrArg List.length haccepted₂
    simpa [BacklogRun.start] using this
  have hseq : s₂.writer.sequence = 2 := by rw [hrecorded₂.sequence_eq, hlength]; rfl
  have hheeded : s₂.Heeds 0 := ⟨hconnected₂, le_rfl, by omega⟩
  have hlen : bulkPayload.length = 33 * 2 ^ 20 := length_replicate
  have htotal : total AcceptedPacket.wire s₂.accepted = 2 * (33 * 2 ^ 20 + 18) := by
    have hpayloads : (s₂.accepted.map (·.payload.length)) = [bulkPayload.length, bulkPayload.length] := by
      have := congrArg (List.map List.length) haccepted₂
      rw [map_map] at this
      exact this
    rw [total_wire, hpayloads, hlen, hlength]
    decide
  refine ⟨{ s₂ with writer := s₂.writer.acknowledge 0 },
    (hrun₁.trans hrun₂).tail (.call _ (.acknowledge 0) _ rfl), haccepted₂, _,
    by rw [deliveryBacklog, (acknowledge_bytes hconnected₂ le_rfl hheeded.2.2).1]; rfl, fun hexact => ?_⟩
  -- an exact count would need both packets in the backup, which has room for one
  have hretained := (hrecorded₂.acknowledge_exact_iff hheeded).mp hexact
  have hall := hrecorded₂.total_take (m := 2) (by omega)
  have hle := (hrecorded₂.backup_total_le 2).trans hcaps
  rw [hall, hlength, Nat.sub_self, drop_zero, htotal] at hle
  exact absurd hle (by decide)

end EternalTerminal
