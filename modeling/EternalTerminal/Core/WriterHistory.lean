import EternalTerminal.Core.BackedWriter

/-!
# Core — the writer's history

What a `BackedWriter` is for: it remembers the newest part of everything it accepted, so that a
peer that read some of it can be given the rest.  `Window hist w` ties the writer to that
history: `hist` is every frame accepted since the last reset, oldest first, and the backup is
its newest part.  Each operation keeps a window (`Window.writePacket` and the four beside it), so
every run does (`Window.run`).

Main results: `backup_is_newest_history`, `unread_frames_recoverable`.
-/

namespace EternalTerminal
open Machine History BackedWriter List

/-! ### The abstract lookup -/

/-- What a peer that has `s` frames is owed by a history of which the newest `kept` frames are
still held. -/
def serve (hist : List Bytes) (kept : Nat) (s : Int) : Except RecoverError (List Bytes) :=
  if (hist.length : Int) < s then .error .aheadOfServer
  else if (kept : Int) < hist.length - s then .error .tooFarBehind
  else .ok ((hist.drop s.toNat).map (List.drop 4))

/-- `hist` is every frame accepted since the last reset, and `w` holds the newest of them. -/
structure Window (hist : List Bytes) (w : BackedWriter) : Prop where
  sequence_eq : w.sequence = hist.length
  newest : w.backup <+: hist.reverse
  size_eq : w.backupSize = total wireLen w.backup
  /-- A frame is its length, two packet bytes and at least a tag. -/
  framed : ∀ frame ∈ hist, 4 + 2 + macLen ≤ frame.length
  bounded : w.backupSize ≤ maxRecoveryBackupBytes
  disconnected_nonneg : 0 ≤ w.disconnectedBytes

namespace Window
variable {hist : List Bytes} {w : BackedWriter}

section
variable (h : Window hist w)
include h

theorem length_le : w.backup.length ≤ hist.length := by
  simpa using h.newest.length_le

theorem backup_eq : w.backup = hist.reverse.take w.backup.length :=
  prefix_iff_eq_take.mp h.newest

/-- The newest `m` frames of a long enough backup are those of the history. -/
theorem take_backup {m : Nat} (hm : m ≤ w.backup.length) :
    w.backup.take m = (hist.drop (hist.length - m)).reverse := by
  rw [h.backup_eq, take_take, Nat.min_eq_left hm, take_reverse]

/-- A writer that only lost old frames still holds a window. -/
theorem trim {w' : BackedWriter} (n : Nat) (hseq : w'.sequence = w.sequence) (hb : w'.backup = w.backup.take n)
    (hs : w'.backupSize = total wireLen (w.backup.take n)) (hd : 0 ≤ w'.disconnectedBytes) :
    Window hist w' where
  sequence_eq := hseq.trans h.sequence_eq
  newest := hb ▸ (List.take_prefix n w.backup).trans h.newest
  size_eq := hs.trans (by rw [hb])
  framed := h.framed
  bounded := by
    have hle := total_take_le wireLen (l := w.backup) (fun f _ => wireLen_nonneg f) n
    rw [hs]
    exact hle.trans (h.size_eq ▸ h.bounded)
  disconnected_nonneg := hd

/-- A writer that took one more frame, and then maybe lost old ones, holds a window of the
longer history. -/
theorem push {w' : BackedWriter} {frame : Bytes} (n : Nat) (hlen : 4 + 2 + macLen ≤ frame.length)
    (hseq : w'.sequence = w.sequence + 1) (hb : w'.backup = (frame :: w.backup).take n)
    (hs : w'.backupSize = total wireLen ((frame :: w.backup).take n)) (hbd : w'.backupSize ≤ maxRecoveryBackupBytes)
    (hd : 0 ≤ w'.disconnectedBytes) :
    Window (hist ++ [frame]) w' where
  sequence_eq := by rw [hseq, h.sequence_eq, length_append]; rfl
  newest := by
    rw [hb, reverse_append]
    exact (List.take_prefix n _).trans ((prefix_cons_inj frame).mpr h.newest)
  size_eq := hs.trans (by rw [hb])
  framed := forall_mem_append.mpr ⟨h.framed, forall_mem_singleton.mpr hlen⟩
  bounded := hbd
  disconnected_nonneg := hd

end

theorem new (crypto : CryptoHandler) (connected : Bool) : Window [] (BackedWriter.new crypto connected) where
  sequence_eq := rfl
  newest := List.nil_prefix
  size_eq := rfl
  framed _ hf := (nomatch hf)
  bounded := show (0 : Int) ≤ maxRecoveryBackupBytes by decide
  disconnected_nonneg := le_rfl

/-- The byte cap on the backup is one on its length. -/
theorem backup_length_le (h : Window hist w) :
    18 * w.backup.length ≤ 76 * 1024 * 1024 := by
  have hweight : ∀ frame ∈ w.backup, (18 : Int) ≤ wireLen frame := by
    intro frame hf
    have hlen := h.framed frame (mem_reverse.mp (h.newest.subset hf))
    unfold wireLen macLen at *
    omega
  have htot := length_mul_le_total wireLen hweight
  have hbd := h.bounded
  rw [h.size_eq] at hbd
  unfold maxRecoveryBackupBytes at hbd
  omega

theorem size_nonneg (h : Window hist w) : 0 ≤ w.backupSize :=
  h.size_eq ▸ total_nonneg wireLen fun f _ => wireLen_nonneg f

end Window

/-! ### What each operation does to the backup -/

namespace BackedWriter
variable {w : BackedWriter}

/-- The acknowledged-history loop cuts no shorter than the unacknowledged part. -/
theorem trimAcknowledged_cut (acknowledged : Option Int) (sequence : Int) (l : List Bytes) :
    ∃ k ≤ l.length,
      trimAcknowledged acknowledged sequence l (total wireLen l) =
        (l.take k, total wireLen (l.take k)) ∧
      ∀ m ≤ l.length, m ≤ usizeMax → (∀ acked ∈ acknowledged, m ≤ (sequence - acked).toNat) →
        m ≤ k := by
  obtain ⟨k, hk, heq, -, hall⟩ :=
    trimBack_spec wireLen (overConnectedCaps (unacknowledged acknowledged sequence)) l
  refine ⟨k, hk, heq, fun m hm hmax hack => ?_⟩
  by_contra hlt
  have hover := hall m (by omega) hm
  simp only [overConnectedCaps, Bool.and_eq_true, decide_eq_true_eq] at hover
  cases acknowledged with
  | none => exact absurd hover.2 (Nat.not_lt.mpr hmax)
  | some acked =>
    have hm' := hack acked rfl
    have hun : unacknowledged (some acked) sequence = (sequence - acked).toNat :=
      usizeOfI64_getD (by omega)
    omega

/-- The two loops of a connected write, as one cut: the hard caps hold after it, and a front
part that both loops spare is kept. -/
theorem commitWrite_connected_cut {reserved : ReservedWrite} {frame : Bytes}
    (hc : w.connected = true) (hlen : wireLen frame = reserved.packetWireLen)
    (hsize : w.backupSize = total wireLen w.backup) :
    ∃ n ≤ w.backup.length + 1,
      w.commitWrite reserved frame = (.send frame, { w with
          unacknowledgedBytes := w.unacknowledgedBytes + reserved.packetWireLen
          backup := (frame :: w.backup).take n
          backupSize := total wireLen ((frame :: w.backup).take n)
          sequence := w.sequence + 1 }) ∧
      (n = 0 ∨ overHardCaps n (total wireLen ((frame :: w.backup).take n)) = false) ∧
      ∀ m ≤ w.backup.length + 1, overHardCaps m (total wireLen ((frame :: w.backup).take m)) = false →
        (∀ acked ∈ w.acknowledged, m ≤ (w.sequence + 1 - acked).toNat) → m ≤ n := by
  have hpush : w.backupSize + (reserved.packetWireLen : Int) = total wireLen (frame :: w.backup) := by
    rw [total_cons, hlen, hsize, Int.add_comm]
  unfold commitWrite
  simp only [hc, hpush, Bool.not_true, Bool.false_eq_true, if_false]
  obtain ⟨k, hk, hacked, hspare⟩ :=
    trimAcknowledged_cut w.acknowledged (w.sequence + 1) (frame :: w.backup)
  rw [hacked]
  obtain ⟨n, hn, hkept, hstop, hall⟩ :=
    trimBack_spec wireLen overHardCaps ((frame :: w.backup).take k)
  rw [length_take, Nat.min_eq_left hk] at hn hall
  have htake : ∀ m ≤ k, ((frame :: w.backup).take k).take m = (frame :: w.backup).take m := by
    intro m hm
    rw [take_take, Nat.min_eq_left hm]
  rw [htake n hn] at hkept hstop
  refine ⟨n, hn.trans hk, ?_, hstop, fun m hm hcap hack => ?_⟩
  · simp only [hkept]
  · have hmax : m ≤ usizeMax := by
      simp only [overHardCaps, Bool.or_eq_false_iff, decide_eq_false_iff_not] at hcap
      have := hcap.2
      unfold maxBackupPackets at this
      unfold usizeMax
      omega
    have hmk := hspare m hm hmax hack
    by_contra hlt
    have hover := hall m (by omega) hmk
    rw [htake m hmk, hcap] at hover
    exact Bool.false_ne_true hover

/-- A packet that a connected writer takes, by the same cut. -/
theorem writePacket_connected_cut {S : Sodium} (header : UInt8) (payload : Bytes)
    (hc : w.connected = true) (hsize : w.backupSize = total wireLen w.backup) :
    ∃ n ≤ w.backup.length + 1,
      let pushed := packetFrame S w.crypto header payload :: w.backup
      w.writePacket S header payload = (.send (packetFrame S w.crypto header payload), { w with
          crypto := w.crypto.bump
          unacknowledgedBytes := w.unacknowledgedBytes + (2 + payload.length + macLen : Nat)
          backup := pushed.take n
          backupSize := total wireLen (pushed.take n)
          sequence := w.sequence + 1 }) ∧
      (n = 0 ∨ overHardCaps n (total wireLen (pushed.take n)) = false) ∧
      ∀ m ≤ w.backup.length + 1, overHardCaps m (total wireLen (pushed.take m)) = false →
        (∀ acked ∈ w.acknowledged, m ≤ (w.sequence + 1 - acked).toNat) → m ≤ n := by
  have hres : w.reserveWrite header payload.length =
      some (⟨Bytes.beBytes 4 (2 + payload.length + macLen) ++ [1, header], w.crypto.bump.nonce, w.crypto.baseKey,
        2 + payload.length + macLen⟩, { w with crypto := w.crypto.bump }) := by
    simp only [reserveWrite, hc]
    rfl
  rw [writePacket, hres]
  exact commitWrite_connected_cut (w := { w with crypto := w.crypto.bump }) hc
    (wireLen_packetFrame S w.crypto header payload) hsize

theorem slackKeep_bounds (rest : List Bytes) (slackPackets slackBytes keep : Nat) :
    keep ≤ slackKeep rest slackPackets slackBytes keep ∧
      slackKeep rest slackPackets slackBytes keep ≤ keep + rest.length := by
  induction rest generalizing slackPackets slackBytes keep with
  | nil => exact ⟨le_rfl, le_rfl⟩
  | cons frame rest ih =>
    unfold slackKeep
    split
    · dsimp only
      split
      · exact ⟨le_rfl, Nat.le_add_right _ _⟩
      · obtain ⟨h₁, h₂⟩ := ih (slackPackets + 1) (slackBytes + (frame.length - 4)) (keep + 1)
        rw [length_cons]
        exact ⟨by omega, by omega⟩
    · exact ⟨le_rfl, Nat.le_add_right _ _⟩

/-- An acknowledgement is ignored, or cuts the backup no shorter than its unacknowledged part. -/
theorem acknowledge_cut (acknowledged : Int) (hsize : w.backupSize = total wireLen w.backup) :
    w.acknowledge acknowledged = w ∨
      ((0 ≤ acknowledged ∧ acknowledged ≤ w.sequence) ∧ w.connected = true) ∧
      ∃ n ≤ w.backup.length,
        min (w.sequence - acknowledged).toNat w.backup.length ≤ n ∧
        ∃ unacknowledgedBytes,
          w.acknowledge acknowledged =
            { w with
              acknowledged := some acknowledged
              unacknowledgedBytes := unacknowledgedBytes
              backup := w.backup.take n
              backupSize := total wireLen (w.backup.take n) } := by
  unfold acknowledge
  split
  · exact .inl rfl
  rename_i hok
  simp only [Bool.not_eq_true', not_or, Bool.not_eq_false, not_lt] at hok
  rw [usizeOfI64_getD (by omega)]
  refine .inr ⟨⟨hok.2, hok.1⟩, ?_⟩
  generalize hkeep : slackKeep _ 0 0 _ = keep
  have hle := (slackKeep_bounds (w.backup.drop (min (w.sequence - acknowledged).toNat
    w.backup.length)) 0 0 (min (w.sequence - acknowledged).toNat w.backup.length)).1
  rw [hkeep] at hle
  obtain ⟨n, hn, hkept, -, hall⟩ :=
    trimBack_spec wireLen (fun len _ => decide (keep < len)) w.backup
  refine ⟨n, hn, ?_, total wireLen (w.backup.take (w.sequence - acknowledged).toNat), ?_⟩
  · by_contra hlt
    have := hall (min (w.sequence - acknowledged).toNat w.backup.length) (by omega)
      (Nat.min_le_right _ _)
    simp only [decide_eq_true_eq] at this
    omega
  · simp only [hkeep, hsize, hkept]

/-- A revive cuts the backup to the hard byte cap, and no shorter. -/
theorem revive_cut (hsize : w.backupSize = total wireLen w.backup) :
    ∃ n ≤ w.backup.length,
      w.revive =
        { w with
          connected := true
          disconnectedBytes := 0
          disconnectedPackets := 0
          backup := w.backup.take n
          backupSize := total wireLen (w.backup.take n) } ∧
      total wireLen (w.backup.take n) ≤ maxBackupBytes ∧
      ∀ m ≤ w.backup.length, total wireLen (w.backup.take m) ≤ maxBackupBytes → m ≤ n := by
  obtain ⟨n, hn, hkept, hstop, hall⟩ :=
    trimBack_spec wireLen (fun _ size => decide (maxBackupBytes < size)) w.backup
  refine ⟨n, hn, ?_, ?_, ?_⟩
  · simp only [revive, hsize, hkept]
  · rcases hstop with rfl | hfit
    · simp [maxBackupBytes]
    · simpa using hfit
  · intro m hm hfit
    by_contra hlt
    have hover := hall m (by omega) hm
    simp only [decide_eq_true_eq] at hover
    omega

theorem reset_cases (S : Sodium) (w : BackedWriter) (salt : Bytes) :
    (∃ e, w.reset S salt = .error e) ∨ ∃ crypto, w.reset S salt = .ok (new crypto false) := by
  unfold reset
  cases w.crypto.rekey S salt with
  | error e => exact .inl ⟨e, rfl⟩
  | ok crypto => exact .inr ⟨crypto, rfl⟩

end BackedWriter

namespace Window
variable {hist : List Bytes} {w : BackedWriter}
variable (h : Window hist w)
include h

/-- One write: the history grows by the accepted frame, if there is one. -/
theorem writePacket (S : Sodium) (header : UInt8) (payload : Bytes) :
    Window (hist ++ (w.acceptedFrame S header payload).toList) (w.writePacket S header payload).2 := by
  rw [acceptedFrame_eq]
  have hlen : 4 + 2 + macLen ≤ (packetFrame S w.crypto header payload).length := by
    rw [length_packetFrame]; omega
  cases hacc : w.accepts payload.length with
  | false => simpa [writePacket_refused hacc] using h
  | true =>
    cases hc : w.connected with
    | true =>
      obtain ⟨n, -, hwr, hstop, -⟩ := writePacket_connected_cut (S := S) header
        payload hc h.size_eq
      rw [hwr]
      refine h.push n hlen rfl rfl rfl ?_ h.disconnected_nonneg
      rcases hstop with rfl | hfit
      · exact show (0 : Int) ≤ maxRecoveryBackupBytes by decide
      · simp only [overHardCaps, Bool.or_eq_false_iff, decide_eq_false_iff_not, not_lt] at hfit
        exact hfit.1.trans (by decide)
    | false =>
      have hfits : w.reserveFits payload.length = true := by simpa [accepts, hc] using hacc
      obtain ⟨-, -, hroom⟩ := (reserveFits_iff h.disconnected_nonneg h.size_nonneg).mp hfits
      have hd := h.disconnected_nonneg
      rw [writePacket_disconnected hc hfits]
      refine h.push (w.backup.length + 1) hlen rfl ?_ ?_ hroom
        (Int.add_nonneg hd (Int.natCast_nonneg _))
      · rw [take_of_length_le (by simp)]
      · rw [take_of_length_le (by simp), total_cons, wireLen_packetFrame, ← h.size_eq]
        exact Int.add_comm _ _

theorem acknowledge (acknowledged : Int) : Window hist (w.acknowledge acknowledged) := by
  rcases acknowledge_cut acknowledged h.size_eq with hsame | ⟨-, n, -, -, u, hcut⟩
  · rwa [hsame]
  · rw [hcut]; exact h.trim n rfl rfl rfl h.disconnected_nonneg

theorem revive : Window hist w.revive := by
  obtain ⟨n, -, hcut, -, -⟩ := revive_cut h.size_eq
  rw [hcut]
  exact h.trim n rfl rfl rfl le_rfl

theorem invalidate : Window hist w.invalidate := { h with }

/-- **On a window, `recover` is the lookup in the history.** -/
theorem recover_eq_serve (s : Int) : w.recover s = serve hist w.backup.length s := by
  have hle := h.length_le
  unfold recover serve
  simp only [h.sequence_eq]
  by_cases hahead : (hist.length : Int) < s
  · rw [if_pos hahead, if_pos (by omega)]
  rw [if_neg hahead, if_neg (by omega)]
  by_cases heq : (hist.length : Int) - s = 0
  · have hs : s.toNat = hist.length := by omega
    rw [if_pos heq, if_neg (by omega), hs, drop_length]
    rfl
  have hcnt : usizeOfI64 (hist.length - s) = some ((hist.length : Int) - s).toNat :=
    if_pos (by omega)
  rw [if_neg heq, hcnt]
  by_cases hfar : (w.backup.length : Int) < hist.length - s
  · rw [if_pos hfar]
    exact if_pos (by omega)
  have hm : ((hist.length : Int) - s).toNat ≤ w.backup.length := by omega
  have hdrop : hist.length - ((hist.length : Int) - s).toNat = s.toNat := by omega
  rw [if_neg hfar]
  simp only [if_neg (Nat.not_lt.mpr hm), h.take_backup hm, hdrop, map_reverse, reverse_reverse]

/-- What an answer of `recover` is: the frames after `s`, all of them held. -/
theorem recover_ok {s : Int} {buffer : List Bytes} (hok : w.recover s = .ok buffer) :
    (0 ≤ s ∧ s ≤ w.sequence ∧ w.sequence - s ≤ w.backup.length) ∧
      buffer = (hist.drop s.toNat).map (List.drop 4) := by
  have hle := h.length_le
  rw [h.recover_eq_serve, serve] at hok
  rw [h.sequence_eq]
  split at hok
  · cases hok
  split at hok
  · cases hok
  · obtain rfl := Except.ok.inj hok
    exact ⟨⟨by omega, by omega, by omega⟩, rfl⟩

end Window

/-! ### Runs -/

/-- A call on a writer. -/
inductive WriterOp where
  | writePacket (header : UInt8) (payload : Bytes)
  | acknowledge (acknowledged : Int)
  | revive
  | invalidate
  | reset (salt : Bytes)

/-- One call, with the frames accepted since the last reset beside the writer. -/
def WriterOp.run (S : Sodium) : BackedWriter × List Bytes → WriterOp → BackedWriter × List Bytes
  | (w, hist), .writePacket header payload =>
    ((w.writePacket S header payload).2, hist ++ (w.acceptedFrame S header payload).toList)
  | (w, hist), .acknowledge acknowledged => (w.acknowledge acknowledged, hist)
  | (w, hist), .revive => (w.revive, hist)
  | (w, hist), .invalidate => (w.invalidate, hist)
  | (w, hist), .reset salt =>
    match w.reset S salt with
    | .ok w => (w, [])
    | .error _ => (w, hist)

theorem Window.run_op {S : Sodium} {r : BackedWriter × List Bytes} (h : Window r.2 r.1)
    (op : WriterOp) : Window (op.run S r).2 (op.run S r).1 := by
  obtain ⟨w, hist⟩ := r
  cases op with
  | writePacket header payload => exact h.writePacket S header payload
  | acknowledge acknowledged => exact h.acknowledge acknowledged
  | revive => exact h.revive
  | invalidate => exact h.invalidate
  | reset salt =>
    rcases reset_cases S w salt with ⟨e, he⟩ | ⟨crypto, hok⟩
    · simpa [WriterOp.run, he] using h
    · simpa [WriterOp.run, hok] using Window.new crypto false

theorem Window.run {S : Sodium} (ops : List WriterOp) {r : BackedWriter × List Bytes} (h : Window r.2 r.1) :
    Window (ops.foldl (WriterOp.run S) r).2 (ops.foldl (WriterOp.run S) r).1 := by
  induction ops generalizing r with
  | nil => exact h
  | cons op ops ih => exact ih (h.run_op op)

/-- **The backup is the newest history.**  After any calls on a new writer, the backup is the newest frames accepted
since the last reset, newest first; its size is theirs without the length fields; `recover` refuses what is ahead or
dropped and otherwise answers the frames after `s`, oldest first, without length fields. -/
theorem backup_is_newest_history (S : Sodium) (crypto : CryptoHandler) (connected : Bool) (ops : List WriterOp) :
    let r := ops.foldl (WriterOp.run S) (BackedWriter.new crypto connected, [])
    let w := r.1
    let hist := r.2
    w.backup.length ≤ hist.length ∧
      w.backup = hist.reverse.take w.backup.length ∧
      w.backupSize = (w.backup.map fun frame => (frame.length : Int) - 4).sum ∧
      ∀ s : Int,
        (w.recover s = .error .aheadOfServer ↔ w.sequence < s) ∧
        (w.recover s = .error .tooFarBehind ↔ (w.backup.length : Int) < w.sequence - s) ∧
        (s ≤ w.sequence → w.sequence - s ≤ w.backup.length →
          w.recover s = .ok ((hist.drop s.toNat).map (List.drop 4))) := by
  intro r w hist
  have h : Window hist w := Window.run ops (Window.new crypto connected)
  clear_value w hist
  refine ⟨h.length_le, h.backup_eq, ?_, fun s => ?_⟩
  · rw [h.size_eq, total]
    congr 1
    refine map_congr_left fun frame hf => ?_
    have hmem : frame ∈ hist := mem_reverse.mp (h.newest.subset hf)
    have hlen := h.framed frame hmem
    rw [wireLen]
    omega
  · have hle := h.length_le
    rw [h.recover_eq_serve s, h.sequence_eq, serve]
    refine ⟨?_, ?_, fun h₁ h₂ => ?_⟩
    · split
      · simpa
      · split <;> simp <;> omega
    · split
      · simp; omega
      · split <;> simp <;> omega
    · rw [if_neg (by omega), if_neg (by omega)]

/-- Two writes, the second while disconnected: a peer that has the first is served the second. -/
theorem backup_is_newest_history_served :
    let ops := [WriterOp.writePacket 7 [1, 2], .invalidate, .writePacket 8 [3]]
    let r := ops.foldl (WriterOp.run Aead.plainSodium)
      (BackedWriter.new (CryptoHandler.new zeroKey 0) true, [])
    (r.1.sequence = 2 ∧ r.1.backup.length = 2) ∧
      r.1.recover 1 = .ok ((r.2.drop 1).map (List.drop 4)) := by
  intro ops r
  have h := ((backup_is_newest_history Aead.plainSodium (CryptoHandler.new zeroKey 0) true ops).2.2.2 1).2.2
  exact ⟨by decide, h (by decide) (by decide)⟩

/-! ### A peer that acknowledges -/

/-- A writer, its history and its peer's reader sequence. -/
structure PeerState where
  writer : BackedWriter
  hist : List Bytes
  peer : Nat

def PeerState.new (crypto : CryptoHandler) (connected : Bool) : PeerState where
  writer := BackedWriter.new crypto connected
  hist := []
  peer := 0

/-- The calls on a writer whose peer's reader stands at `peer`: an acknowledgement carries a
sequence the reader has reached. -/
def WriterOp.Honest (peer : Nat) : WriterOp → Prop
  | .acknowledge acknowledged => acknowledged ≤ peer
  | .reset _ => False
  | _ => True

/-- One step: a call, a reset of both ends, or the peer reading on. -/
inductive PeerStep (S : Sodium) : PeerState → PeerState → Prop where
  | call (s : PeerState) (op : WriterOp) (h : op.Honest s.peer) :
      PeerStep S s ⟨(op.run S (s.writer, s.hist)).1, (op.run S (s.writer, s.hist)).2, s.peer⟩
  | reset (s : PeerState) (salt : Bytes) (w : BackedWriter) (h : s.writer.reset S salt = .ok w) :
      PeerStep S s ⟨w, [], 0⟩
  | read (s : PeerState) (n : Nat) : PeerStep S s { s with peer := s.peer + n }

/-- `frames` exceed neither hard cap. -/
def FitsHardCaps (frames : List Bytes) : Prop :=
  total wireLen frames ≤ maxBackupBytes ∧ frames.length ≤ maxBackupPackets

instance (frames : List Bytes) : Decidable (FitsHardCaps frames) :=
  inferInstanceAs (Decidable (_ ∧ _))

theorem FitsHardCaps.drop_init {frames : List Bytes} {frame : Bytes}
    (h : FitsHardCaps (frames ++ [frame])) : FitsHardCaps frames := by
  obtain ⟨h₁, h₂⟩ := h
  rw [total_append] at h₁
  have := total_nonneg wireLen (l := [frame]) fun f _ => wireLen_nonneg f
  exact ⟨by omega, by rw [length_append] at h₂; omega⟩

/-- The part of the history from `q` on is held if it fits the hard caps, for every `q` the peer
has reached. -/
structure HoldsUnread (s : PeerState) : Prop where
  window : Window s.hist s.writer
  acked : ∀ a ∈ s.writer.acknowledged, a ≤ s.peer
  held : ∀ q, s.peer ≤ q → FitsHardCaps (s.hist.drop q) → s.hist.length - q ≤ s.writer.backup.length

namespace HoldsUnread
variable {S : Sodium} {s : PeerState}

section
variable (h : HoldsUnread s)
include h

theorem writePacket (header : UInt8) (payload : Bytes) :
    HoldsUnread ⟨(s.writer.writePacket S header payload).2,
      s.hist ++ (s.writer.acceptedFrame S header payload).toList, s.peer⟩ := by
  obtain ⟨w, hist, peer⟩ := s
  have hwin := h.window.writePacket S header payload
  have hack : (w.writePacket S header payload).2.acknowledged = w.acknowledged := by
    cases hacc : w.accepts payload.length with
    | false => rw [writePacket_refused hacc]
    | true => exact (writePacket_accepted _ hacc).2.2.2.2
  refine ⟨hwin, by rw [hack]; exact h.acked, fun q hq hfit => ?_⟩
  dsimp only at hq hfit hwin ⊢
  rw [acceptedFrame_eq] at hfit hwin ⊢
  cases hacc : w.accepts payload.length with
  | false =>
    simp only [hacc, Bool.false_eq_true, if_false, Option.toList_none, append_nil] at hfit ⊢
    rw [writePacket_refused hacc]
    exact h.held q hq hfit
  | true =>
    simp only [hacc, if_true, Option.toList_some] at hfit hwin ⊢
    by_cases hout : hist.length < q
    · rw [length_append, length_singleton]; omega
    rw [drop_append_of_le_length (by omega)] at hfit
    have hheld : hist.length - q ≤ w.backup.length := h.held q hq hfit.drop_init
    have hm : (hist ++ [packetFrame S w.crypto header payload]).length - q =
        hist.length - q + 1 := by rw [length_append, length_singleton]; omega
    rw [hm]
    cases hc : w.connected with
    | false =>
      rw [writePacket_disconnected hc (by simpa [accepts, hc] using hacc)]
      simpa using hheld
    | true =>
      obtain ⟨n, hn, hwr, -, hkeep⟩ := writePacket_connected_cut (S := S) header
        payload hc h.window.size_eq
      rw [hwr, length_take, length_cons, Nat.min_eq_left hn]
      -- the frames from `q` on, newest first, are what the loops are asked to spare
      have htake : (packetFrame S w.crypto header payload :: w.backup).take (hist.length - q + 1) =
          (hist.drop q ++ [packetFrame S w.crypto header payload]).reverse := by
        have hpart := h.window.take_backup hheld
        dsimp only at hpart
        rw [take_succ_cons, hpart, reverse_append, show hist.length - (hist.length - q) = q by omega]
        rfl
      refine hkeep _ (Nat.succ_le_succ hheld) ?_ fun a ha => ?_
      · obtain ⟨hbs, hcnt⟩ := hfit
        rw [htake, total_reverse]
        rw [length_append, length_drop, length_singleton] at hcnt
        simp only [overHardCaps, Bool.or_eq_false_iff, decide_eq_false_iff_not, not_lt]
        exact ⟨hbs, hcnt⟩
      · have hle := h.acked a ha
        have hseq := h.window.sequence_eq
        dsimp only at hle hseq
        omega

/-- An acknowledgement the peer's reader has reached drops nothing the peer has not read. -/
theorem acknowledge_spares {acknowledged : Int} (ha : acknowledged ≤ s.peer) :
    min (s.writer.sequence - s.peer).toNat s.writer.backup.length ≤
      (s.writer.acknowledge acknowledged).backup.length := by
  rcases acknowledge_cut acknowledged h.window.size_eq with hsame | ⟨-, n, hn, hle, u, hcut⟩
  · rw [hsame]; exact Nat.min_le_right _ _
  · rw [hcut, length_take, Nat.min_eq_left hn]
    omega

theorem acknowledge {acknowledged : Int} (ha : acknowledged ≤ s.peer) :
    HoldsUnread ⟨s.writer.acknowledge acknowledged, s.hist, s.peer⟩ := by
  refine ⟨h.window.acknowledge acknowledged, fun a hmem => ?_, fun q hq hfit => ?_⟩
  · rcases acknowledge_cut acknowledged h.window.size_eq with hsame | ⟨-, n, -, -, u, hcut⟩
    · exact h.acked a (by rwa [hsame] at hmem)
    · rw [hcut] at hmem
      obtain rfl : acknowledged = a := Option.some.inj hmem
      exact ha
  · have hspare := h.acknowledge_spares ha
    have hheld := h.held q hq hfit
    have hseq := h.window.sequence_eq
    dsimp only at hq ⊢
    omega

theorem revive : HoldsUnread ⟨s.writer.revive, s.hist, s.peer⟩ := by
  refine ⟨h.window.revive, h.acked, fun q hq hfit => ?_⟩
  obtain ⟨n, hn, hcut, -, hkeep⟩ := revive_cut h.window.size_eq
  have hheld := h.held q hq hfit
  dsimp only at hq hfit ⊢
  rw [hcut, length_take, Nat.min_eq_left hn]
  refine hkeep _ hheld ?_
  rw [h.window.take_backup hheld, total_reverse]
  by_cases hout : s.hist.length ≤ q
  · rw [Nat.sub_eq_zero_of_le hout, Nat.sub_zero, drop_length]
    decide
  · rw [show s.hist.length - (s.hist.length - q) = q by omega]
    exact hfit.1

theorem step {t : PeerState} (hs : PeerStep S s t) : HoldsUnread t := by
  cases hs with
  | call op hop =>
    cases op with
    | writePacket header payload => exact h.writePacket header payload
    | acknowledge acknowledged => exact h.acknowledge hop
    | revive => exact h.revive
    | invalidate => exact ⟨h.window.invalidate, h.acked, h.held⟩
    | reset salt => exact hop.elim
  | reset salt w hok =>
    rcases reset_cases S s.writer salt with ⟨e, he⟩ | ⟨crypto, hnew⟩
    · rw [he] at hok; cases hok
    · rw [hnew] at hok
      cases hok
      exact ⟨Window.new crypto false, fun a ha => absurd ha (by simp [BackedWriter.new]), fun q _ _ => by simp⟩
  | read n =>
    refine ⟨h.window, fun a ha => ?_, fun q hq => h.held q (by dsimp only at hq; omega)⟩
    have := h.acked a ha
    push_cast
    omega

end

theorem run {crypto : CryptoHandler} {connected : Bool}
    (hrun : Relation.ReflTransGen (PeerStep S) (PeerState.new crypto connected) s) :
    HoldsUnread s :=
  reach_invariant hrun ⟨Window.new crypto connected, fun a ha => absurd ha (by
    simp [PeerState.new, BackedWriter.new]), fun q _ _ => by simp [PeerState.new]⟩ fun _ _ h hs => h.step hs

end HoldsUnread

/-- **Unread frames are recoverable.**  In every run whose acknowledgements carry sequences the
peer's reader has reached: a peer at sequence `p` is not too far behind while the frames after
`p` fit the hard caps.  An acknowledgement never drops a frame the peer has not read, and
neither does the loop for acknowledged history in a write. -/
theorem unread_frames_recoverable (S : Sodium) (crypto : CryptoHandler) (connected : Bool) (s : PeerState)
    (hrun : Relation.ReflTransGen (PeerStep S) (PeerState.new crypto connected) s) :
    (FitsHardCaps (s.hist.drop s.peer) → s.writer.recover s.peer ≠ .error .tooFarBehind) ∧
    (∀ acknowledged ≤ (s.peer : Int), min (s.writer.sequence - s.peer).toNat s.writer.backup.length ≤
        (s.writer.acknowledge acknowledged).backup.length) ∧
    (∀ header payload, min (s.writer.sequence + 1 - s.peer).toNat (s.writer.backup.length + 1) ≤
        (trimAcknowledged s.writer.acknowledged (s.writer.sequence + 1)
          (packetFrame S s.writer.crypto header payload :: s.writer.backup)
          (s.writer.backupSize + (2 + payload.length + macLen : Nat))).1.length) := by
  have h := HoldsUnread.run hrun
  have hseq := h.window.sequence_eq
  refine ⟨fun hfit => ?_, fun _ ha => h.acknowledge_spares ha, fun header payload => ?_⟩
  · have hheld := h.held s.peer le_rfl hfit
    rw [h.window.recover_eq_serve, serve]
    split
    · simp
    · rw [if_neg (by omega)]; simp
  · have hpush : s.writer.backupSize + (2 + payload.length + macLen : Nat) =
        total wireLen (packetFrame S s.writer.crypto header payload :: s.writer.backup) := by
      rw [total_cons, wireLen_packetFrame, h.window.size_eq, Int.add_comm]
    obtain ⟨k, hk, hacked, hspare⟩ := trimAcknowledged_cut s.writer.acknowledged
      (s.writer.sequence + 1) (packetFrame S s.writer.crypto header payload :: s.writer.backup)
    rw [hpush, hacked, length_take, Nat.min_eq_left hk]
    have hlen := h.window.backup_length_le
    refine hspare _ (Nat.min_le_right _ _) ?_ fun a ha => ?_
    · unfold usizeMax; omega
    · have := h.acked a ha
      omega

/-- A peer that acknowledged the first of two packets is not too far behind. -/
theorem unread_frames_recoverable_acked :
    ∃ s : PeerState,
      Relation.ReflTransGen (PeerStep Aead.plainSodium)
        (PeerState.new (CryptoHandler.new zeroKey 0) true) s ∧
      (s.writer.acknowledged = some 1 ∧ s.writer.sequence = 2) ∧
      FitsHardCaps (s.hist.drop s.peer) ∧ s.writer.recover s.peer ≠ .error .tooFarBehind := by
  have hrun := (((Relation.ReflTransGen.single
    (PeerStep.call (S := Aead.plainSodium) (PeerState.new (CryptoHandler.new zeroKey 0) true)
      (.writePacket 7 [1, 2]) trivial)).tail
    (.call _ (.writePacket 8 [3]) trivial)).tail (.read _ 1)).tail
    (.call _ (.acknowledge 1) (show (1 : Int) ≤ 1 from le_rfl))
  have hserved := (unread_frames_recoverable _ _ _ _ hrun).1 (by decide)
  exact ⟨_, hrun, by decide, by decide, hserved⟩

end EternalTerminal
