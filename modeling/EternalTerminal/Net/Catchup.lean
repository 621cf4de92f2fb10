import EternalTerminal.Core.BackedReader
import EternalTerminal.Core.WriterHistory
import EternalTerminal.Lib.Protobuf

/-!
# Net — catchup buffers

The `CatchupBuffer` of a recovery: what one side's writer owes the other, as one message.  The
sender puts the frames `recover` answers into it; the receiver checks the encoding entry by entry
before it decodes it.

Main results: `catchup_accepted_iff`, `servable_sequence_refused`.
-/

namespace EternalTerminal
open Machine History BackedWriter Protobuf List
open Relation (ReflTransGen)

/-- `std::io::ErrorKind`, as far as it is used. -/
inductive ErrorKind where
  | invalidData
  | invalidInput
  | timedOut
  | unexpectedEof
  | other
  deriving DecidableEq

/-- Errors of a connection. -/
inductive ConnError where
  | io (kind : ErrorKind) (message : String)
  | read (error : ReadError)
  | recover (error : RecoverError)
  | sequenceOutOfRange (sequence : Int)
  | invalidRecoverySequence (value : Option Int)
  deriving DecidableEq

def maxRecoveryProtoLen : Nat := 144 * 1024 * 1024

/-- The frames a peer has not read. -/
structure CatchupBuffer where
  buffer : List Bytes

namespace CatchupBuffer

def encode (m : CatchupBuffer) : Bytes := (m.buffer.map (bytesField 1)).flatten

def decode (bytes : Bytes) : Option CatchupBuffer := do
  let fields ← decodeFields bytes
  let buffer ← repeatedBytes 1 fields
  return ⟨buffer⟩

end CatchupBuffer
variable {buffer hist : List Bytes} {bytes : Bytes} {w : BackedWriter}

def invalidCatchup (message : String) : ConnError := .io .invalidData message

/-- The crate's own reader of a varint: its value, and the bytes it took. -/
def decodeVarint (bytes : Bytes) : Option (Nat × Nat) := Protobuf.decodeVarint bytes

/-- The loop of `validateCatchupEncoding` over the bytes from `offset` on; every entry takes a byte,
so their number is fuel enough. -/
def validateEntries : Nat → Bytes → Nat → Except ConnError Unit
  | _, [], _ => .ok ()
  | 0, _ :: _, _ => .error (invalidCatchup "catchup contains an invalid length")
  | fuel + 1, key :: encoded, entries =>
    if key ≠ 0x0a then .error (invalidCatchup "catchup contains an unsupported field")
    else match decodeVarint encoded with
      | none => .error (invalidCatchup "catchup contains an invalid length")
      | some (length, consumed) =>
        let encoded := encoded.drop consumed
        if length = 0 then .error (invalidCatchup "catchup contains an empty entry")
        else if maxBackupPackets + maxDisconnectPackets < entries + 1 then
          .error (invalidCatchup "catchup contains too many entries")
        else if encoded.length < length then
          .error (invalidCatchup "catchup entry exceeds frame")
        else validateEntries fuel (encoded.drop length) (entries + 1)

def validateCatchupEncoding (encoded : Bytes) : Except ConnError Unit :=
  validateEntries encoded.length encoded 0

/-! ### Encoded entries -/

theorem bytesField_one (entry : Bytes) :
    bytesField 1 entry = 0x0a :: (encodeVarint entry.length ++ entry) := by
  rfl

/-- An entry of a sealed packet costs at most a ninth more than its length. -/
theorem length_bytesField_le {entry : Bytes} (h : 2 + macLen ≤ entry.length) :
    9 * (bytesField 1 entry).length ≤ 10 * entry.length := by
  have hlen := length_encodeVarint_le entry.length
  unfold macLen at h
  rw [bytesField_one, length_cons, length_append]
  by_cases hsm : entry.length < 128
  · rw [encodeVarint_of_lt hsm, length_singleton]
    omega
  · omega

theorem length_encode_le (h : ∀ entry ∈ buffer, 2 + macLen ≤ entry.length) :
    9 * (CatchupBuffer.encode ⟨buffer⟩).length ≤ 10 * (buffer.map List.length).sum := by
  induction buffer with
  | nil => exact le_rfl
  | cons entry buffer ih =>
    have h₁ := length_bytesField_le (h entry mem_cons_self)
    have h₂ := ih fun e he => h e (mem_cons_of_mem _ he)
    simp only [CatchupBuffer.encode, map_cons, flatten_cons, length_append, sum_cons] at h₂ ⊢
    omega

/-- **The entries of an encoding**, in order: each is the key of field 1, its length as a varint of at most 64 bits, the
shortest or not, and its bytes. -/
inductive Entries : List Bytes → Bytes → Prop where
  | nil : Entries [] []
  | cons {length entry rest : Bytes} {buffer : List Bytes} (hlen : Varint 64 length entry.length)
      (h : Entries buffer rest) : Entries (entry :: buffer) (0x0a :: (length ++ (entry ++ rest)))

theorem entries_encode (h : ∀ entry ∈ buffer, entry.length < 2 ^ 64) :
    Entries buffer (CatchupBuffer.encode ⟨buffer⟩) := by
  induction buffer with
  | nil => exact .nil
  | cons entry buffer ih =>
    obtain ⟨hentry, hbuffer⟩ := forall_mem_cons.mp h
    rw [CatchupBuffer.encode, map_cons, flatten_cons, bytesField_one, cons_append, append_assoc]
    exact .cons (varint_encodeVarint le_rfl hentry) (ih hbuffer)

variable {s : Int} {entries fuel : Nat} {S : Sodium} {r : BackedWriter × List Bytes}

/-- Of non-empty entries only their number can be refused. -/
theorem Entries.validateEntries_eq (h : Entries buffer bytes) (hne : [] ∉ buffer)
    (hfuel : bytes.length ≤ fuel) (hentries : entries ≤ maxBackupPackets + maxDisconnectPackets) :
    validateEntries fuel bytes entries =
      if entries + buffer.length ≤ maxBackupPackets + maxDisconnectPackets then .ok ()
      else .error (invalidCatchup "catchup contains too many entries") := by
  induction h generalizing entries fuel with
  | nil =>
    rw [length_nil, Nat.add_zero, if_pos hentries]
    cases fuel <;> rfl
  | @cons length entry rest buffer hlen h ih =>
    cases fuel with
    | zero => exact absurd hfuel (Nat.not_succ_le_zero _)
    | succ fuel =>
      obtain ⟨hentry, hbuffer⟩ := not_or.mp (mt mem_cons.mpr hne)
      have hpos : entry.length ≠ 0 := fun hzero => hentry (length_eq_zero_iff.mp hzero).symm
      simp only [length_cons, length_append] at hfuel
      rw [validateEntries, if_neg (by simp), decodeVarint, hlen.decodeVarint_append]
      simp only [drop_left, if_neg hpos, length_append, length_cons, if_neg (Nat.not_lt.mpr (Nat.le_add_right _ _))]
      by_cases hmany : maxBackupPackets + maxDisconnectPackets < entries + 1
      · rw [if_pos hmany, if_neg (by omega)]
      rw [if_neg hmany, ih hbuffer (by omega) (by omega)]
      simp only [Nat.add_assoc, Nat.add_comm 1]

/-- What is accepted has entries. -/
theorem exists_entries (hentries : entries ≤ maxBackupPackets + maxDisconnectPackets)
    (h : validateEntries fuel bytes entries = .ok ()) :
    ∃ buffer, Entries buffer bytes ∧ [] ∉ buffer ∧
      entries + buffer.length ≤ maxBackupPackets + maxDisconnectPackets := by
  induction fuel generalizing bytes entries with
  | zero =>
    cases bytes with
    | nil => exact ⟨[], .nil, not_mem_nil, hentries⟩
    | cons key encoded => cases h
  | succ fuel ih =>
    cases bytes with
    | nil => exact ⟨[], .nil, not_mem_nil, hentries⟩
    | cons key encoded =>
      rw [validateEntries] at h
      split at h
      · cases h
      next hkey =>
      split at h
      · cases h
      next length consumed hread =>
      obtain ⟨varint, rest, rfl, hvarint, rfl⟩ := exists_varint_of_decodeVarint hread
      dsimp only at h hvarint
      rw [drop_left] at h
      split at h
      · cases h
      next hpos =>
      split at h
      · cases h
      next hmany =>
      split at h
      · cases h
      next hroom =>
      obtain ⟨buffer, hbuffer, hne, hlen⟩ := ih (by omega) h
      have hentry : (rest.take length).length = length := length_take_of_le (by omega)
      refine ⟨rest.take length :: buffer, ?_, ?_, by rw [length_cons]; omega⟩
      · have hcons := Entries.cons (hentry.symm ▸ hvarint) hbuffer
        rwa [take_append_drop, ← not_not.mp hkey] at hcons
      · rw [mem_cons, not_or]
        exact ⟨fun hnil => hpos (by rw [← hentry, ← hnil, length_nil]), hne⟩

/-- The message decoder reads the entries. -/
theorem Entries.decode (h : Entries buffer bytes) : CatchupBuffer.decode bytes = some ⟨buffer⟩ := by
  have hfld : decodeFields bytes = some (buffer.map fun entry => ⟨1, .bytes entry⟩) := by
    induction h with
    | nil => exact decodeFields_nil
    | @cons length entry rest buffer hlen h ih =>
      have hfield : decodeField (0x0a :: (length ++ (entry ++ rest))) = some (⟨1, .bytes entry⟩, rest) := by
        rw [decodeField_bytes 1 _ (show 0x0a = _ from rfl) le_rfl (by decide), takeVarint, hlen.decodeVarint_append]
        simp [takeBytes]
      rw [decodeFields_of_decodeField hfield, ih]
      rfl
  have hbuf : repeatedBytes 1 (buffer.map fun entry => ⟨1, .bytes entry⟩) = some buffer := by
    clear h hfld
    induction buffer with
    | nil => rfl
    | cons entry buffer ih => simp [repeatedBytes, ih]
  simp [CatchupBuffer.decode, hfld, hbuf]

/-- **What a receiver accepts**: exactly the encodings of non-empty entries, no more of them than it may be sent, with
any varints of at most 64 bits for the lengths; and the message decoder reads those entries, in order. -/
theorem validateCatchupEncoding_ok_iff (encoded : Bytes) :
    (validateCatchupEncoding encoded = .ok () ↔ ∃ buffer, Entries buffer encoded ∧ [] ∉ buffer ∧
      buffer.length ≤ maxBackupPackets + maxDisconnectPackets) ∧
    ∀ buffer, Entries buffer encoded → CatchupBuffer.decode encoded = some ⟨buffer⟩ := by
  refine ⟨⟨fun h => ?_, ?_⟩, fun buffer h => h.decode⟩
  · simpa using exists_entries (Nat.zero_le _) h
  · rintro ⟨buffer, h, hne, hlen⟩
    rw [validateCatchupEncoding, h.validateEntries_eq hne le_rfl (Nat.zero_le _), Nat.zero_add, if_pos hlen]

/-- Decoding reads the entries back. -/
theorem CatchupBuffer.decode_encode {m : CatchupBuffer} (h : m.encode.length < 2 ^ 64) :
    decode m.encode = some m := by
  refine (entries_encode fun entry hentry => ?_).decode
  have hfield := (sublist_flatten_of_mem (mem_map_of_mem (f := bytesField 1) hentry)).length_le
  rw [bytesField_one, length_cons, length_append] at hfield
  rw [encode] at h
  omega

/-! ### The catchups of a writer -/

/-- A catchup message that its receiver takes: short enough, and its entries are accepted. -/
def Receivable (m : CatchupBuffer) : Prop :=
  m.encode.length ≤ maxRecoveryProtoLen ∧ validateCatchupEncoding m.encode = .ok ()

section
variable (h : Window hist w) (hok : w.recover s = .ok buffer)
include h hok

theorem Window.recover_entries :
    (∀ entry ∈ buffer, 2 + macLen ≤ entry.length) ∧
      (buffer.map List.length).sum ≤ 76 * 1024 * 1024 ∧
      buffer.length = (w.sequence - s).toNat := by
  obtain ⟨⟨h₀, hs, hm⟩, rfl⟩ := h.recover_ok hok
  have hseq := h.sequence_eq
  refine ⟨fun entry he => ?_, ?_, ?_⟩
  · obtain ⟨frame, hf, rfl⟩ := mem_map.mp he
    have hlen := h.framed frame (mem_of_mem_drop hf)
    rw [length_drop]
    omega
  · -- the entries' lengths are the weights of frames that are held
    have hheld : hist.length - s.toNat ≤ w.backup.length := by omega
    have htake := h.take_backup hheld
    rw [show hist.length - (hist.length - s.toNat) = s.toNat by omega] at htake
    have hle := total_take_le wireLen (l := w.backup) (fun f _ => wireLen_nonneg f)
      (hist.length - s.toNat)
    rw [htake, total_reverse] at hle
    have hsum : ((((hist.drop s.toNat).map (List.drop 4)).map List.length).sum : Int) =
        total wireLen (hist.drop s.toNat) := by
      rw [total, Nat.cast_list_sum]
      congr 1
      simp only [map_map]
      refine map_congr_left fun frame _ => ?_
      simp [wireLen]
    have hbd := h.bounded
    rw [h.size_eq] at hbd
    unfold maxRecoveryBackupBytes at hbd
    omega
  · rw [length_map, length_drop]
    omega

/-- On a window, the receiver's check of an answer only looks at the number of frames. -/
theorem Window.validate_recover :
    validateCatchupEncoding (CatchupBuffer.encode ⟨buffer⟩) =
      if (w.sequence - s).toNat ≤ maxBackupPackets + maxDisconnectPackets then .ok ()
      else .error (invalidCatchup "catchup contains too many entries") := by
  obtain ⟨hent, hsum, hlen⟩ := h.recover_entries hok
  have hnil : [] ∉ buffer := fun hnil => absurd (hent [] hnil) (by decide)
  have hlt : ∀ entry ∈ buffer, entry.length < 2 ^ 64 := fun entry he => by
    have := le_sum_of_mem (mem_map_of_mem (f := List.length) he)
    omega
  rw [validateCatchupEncoding, (entries_encode hlt).validateEntries_eq hnil le_rfl (Nat.zero_le _), Nat.zero_add, hlen]

/-- On a window, only the number of frames asked for can make a catchup unreceivable. -/
theorem Window.receivable_iff :
    Receivable ⟨buffer⟩ ↔ w.sequence - s ≤ (maxBackupPackets + maxDisconnectPackets : Nat) := by
  obtain ⟨hent, hsum, -⟩ := h.recover_entries hok
  have hbs := length_encode_le hent
  unfold Receivable
  rw [h.validate_recover hok]
  by_cases hmany : (w.sequence - s).toNat ≤ maxBackupPackets + maxDisconnectPackets
  · rw [if_pos hmany]
    refine iff_of_true ⟨?_, rfl⟩ (by omega)
    unfold maxRecoveryProtoLen
    omega
  · rw [if_neg hmany]
    exact iff_of_false (fun hr => by cases hr.2) (by omega)

end

/-- Every catchup the writer can be asked for is receivable. -/
def ServesReceivable (w : BackedWriter) : Prop :=
  ∀ s buffer, w.recover s = .ok buffer → Receivable ⟨buffer⟩

theorem Window.servesReceivable_iff (h : Window hist w) :
    ServesReceivable w ↔ w.backup.length ≤ maxBackupPackets + maxDisconnectPackets := by
  have hseq := h.sequence_eq
  constructor
  · intro hserves
    -- the longest catchup is the whole backup
    have hall : w.recover (w.sequence - w.backup.length) =
        .ok ((hist.drop (w.sequence - w.backup.length).toNat).map (List.drop 4)) := by
      rw [h.recover_eq_serve, serve, if_neg (by omega), if_neg (by omega)]
    have := (h.receivable_iff hall).mp (hserves _ _ hall)
    omega
  · intro hlen s buffer hok
    obtain ⟨⟨-, -, hm⟩, -⟩ := h.recover_ok hok
    exact (h.receivable_iff hok).mpr (by omega)

/-! ### Runs -/

/-- One allowed call on a writer, with its history beside it. -/
inductive WriterStep (S : Sodium) (allowed : BackedWriter → WriterOp → Prop) :
    BackedWriter × List Bytes → BackedWriter × List Bytes → Prop where
  | call (r : BackedWriter × List Bytes) (op : WriterOp) (h : allowed r.1 op) :
      WriterStep S allowed r (op.run S r)

/-- A packet written while disconnected finds room for one more entry in a catchup. -/
def WriterOp.LeavesRoom (w : BackedWriter) : WriterOp → Prop
  | .writePacket _ _ =>
    w.connected = false → w.backup.length < maxBackupPackets + maxDisconnectPackets
  | _ => True

theorem Window.reach {allowed : BackedWriter → WriterOp → Prop} {crypto : CryptoHandler} {connected : Bool}
    (hrun : ReflTransGen (WriterStep S allowed) (BackedWriter.new crypto connected, []) r) :
    Window r.2 r.1 := by
  refine reach_invariant (P := fun r => Window r.2 r.1) hrun (Window.new crypto connected) ?_
  rintro a b h ⟨op, -⟩
  exact h.run_op op

/-- One call keeps the number of frames within what a receiver takes. -/
theorem length_run_op_le (h : Window r.2 r.1)
    (hlen : r.1.backup.length ≤ maxBackupPackets + maxDisconnectPackets) {op : WriterOp}
    (hop : op.LeavesRoom r.1) :
    (op.run S r).1.backup.length ≤ maxBackupPackets + maxDisconnectPackets := by
  obtain ⟨w, hist⟩ := r
  cases op with
  | writePacket header payload =>
    show (w.writePacket S header payload).2.backup.length ≤ _
    cases hacc : w.accepts payload.length with
    | false => rwa [writePacket_refused hacc]
    | true =>
      cases hc : w.connected with
      | false =>
        rw [writePacket_disconnected hc (by simpa [accepts, hc] using hacc)]
        exact hop hc
      | true =>
        obtain ⟨n, hn, hwr, hstop, -⟩ := writePacket_connected_cut (S := S)
          header payload hc h.size_eq
        rw [hwr, length_take, length_cons, Nat.min_eq_left hn]
        rcases hstop with rfl | hfit
        · exact Nat.zero_le _
        · simp only [overHardCaps, Bool.or_eq_false_iff, decide_eq_false_iff_not, not_lt] at hfit
          exact hfit.2.trans (Nat.le_add_right _ _)
  | acknowledge acknowledged =>
    show (w.acknowledge acknowledged).backup.length ≤ _
    rcases acknowledge_cut acknowledged h.size_eq with hsame | ⟨-, n, -, -, u, hcut⟩
    · rwa [hsame]
    · rw [hcut]
      exact (length_take_le' _ _).trans hlen
  | revive =>
    show w.revive.backup.length ≤ _
    obtain ⟨n, -, hcut, -, -⟩ := revive_cut h.size_eq
    rw [hcut]
    exact (length_take_le' _ _).trans hlen
  | invalidate => exact hlen
  | reset salt =>
    rcases reset_cases S w salt with ⟨e, he⟩ | ⟨crypto, hok⟩
    · simpa [WriterOp.run, he] using hlen
    · simp [WriterOp.run, hok, BackedWriter.new]

/-- **When a servable sequence is receivable.**  In every run whose packets written while disconnected find room for
one more catchup entry, every catchup the writer can be asked for is within the limit and accepted.  The condition is
exact: in any reachable state all are receivable if and only if the backup holds at most as many frames as a catchup
may have entries, and a packet accepted without that room ends in a state where one is not. -/
theorem catchup_accepted_iff (S : Sodium) (crypto : CryptoHandler) (connected : Bool) :
    (∀ r, ReflTransGen (WriterStep S fun w op => op.LeavesRoom w)
        (BackedWriter.new crypto connected, []) r → ServesReceivable r.1) ∧
    (∀ r, ReflTransGen (WriterStep S fun _ _ => True)
        (BackedWriter.new crypto connected, []) r →
      (ServesReceivable r.1 ↔ r.1.backup.length ≤ maxBackupPackets + maxDisconnectPackets) ∧
      ∀ header payload, ¬ (WriterOp.writePacket header payload).LeavesRoom r.1 →
        r.1.accepts payload.length = true →
        ¬ ServesReceivable ((WriterOp.writePacket header payload).run S r).1) := by
  refine ⟨fun r hrun => ?_, fun r hrun => ⟨(Window.reach hrun).servesReceivable_iff, ?_⟩⟩
  · refine (Window.reach hrun).servesReceivable_iff.mpr ?_
    have hboth := reach_invariant (P := fun r : BackedWriter × List Bytes => Window r.2 r.1 ∧
      r.1.backup.length ≤ maxBackupPackets + maxDisconnectPackets) hrun
      ⟨Window.new crypto connected, Nat.zero_le _⟩ ?_
    · exact hboth.2
    · rintro a b ⟨hw, hlen⟩ ⟨op, hop⟩
      exact ⟨hw.run_op op, length_run_op_le hw hlen hop⟩
  · intro header payload hfull hacc hserves
    have hwin := (Window.reach hrun).run_op (S := S) (.writePacket header payload)
    have hlen := hwin.servesReceivable_iff.mp hserves
    obtain ⟨w, hist⟩ := r
    simp only [WriterOp.LeavesRoom, Classical.not_imp, not_lt] at hfull
    obtain ⟨hc, hlong⟩ := hfull
    have hw : ((WriterOp.writePacket header payload).run S (w, hist)).1 =
        (w.writePacket S header payload).2 := rfl
    rw [hw, writePacket_disconnected hc (by simpa [accepts, hc] using hacc)] at hlen
    simp only [length_cons] at hlen
    omega

/-- A reconnect: packets written before it, after it, and once the connection is lost again. -/
def reconnectCalls : List WriterOp :=
  [.writePacket 7 [1], .writePacket 7 [2], .revive, .writePacket 7 [3], .acknowledge 1, .invalidate,
    .writePacket 7 [4]]

theorem catchup_accepted_reconnected :
    let r := reconnectCalls.foldl (WriterOp.run Aead.plainSodium)
      (BackedWriter.new (CryptoHandler.new zeroKey 0) false, [])
    r.1.sequence = 4 ∧ r.1.backup.length = 4 ∧ ServesReceivable r.1 := by
  have hrun : ReflTransGen (WriterStep Aead.plainSodium fun w op => op.LeavesRoom w)
      (BackedWriter.new (CryptoHandler.new zeroKey 0) false, []) _ :=
    reach_of_events (fun r op hop => .call r op hop) reconnectCalls
      ⟨fun _ => by decide, fun _ => by decide, trivial, fun _ => by decide, trivial, trivial,
        fun _ => by decide, trivial⟩
  exact ⟨by decide, by decide, (catchup_accepted_iff Aead.plainSodium _ _).1 _ hrun⟩

/-! ### Three disconnects in a row -/

/-- A disconnected writer that took `n` more empty packets than `w`. -/
structure TookEmpty (w w' : BackedWriter) (n : Nat) : Prop where
  connected : w'.connected = false
  sequence : w'.sequence = w.sequence + n
  length : w'.backup.length = w.backup.length + n
  size : w'.backupSize = w.backupSize + 18 * n
  bytes : w'.disconnectedBytes = w.disconnectedBytes + 18 * n
  packets : w'.disconnectedPackets = w.disconnectedPackets + n

/-- `n` empty packets written while disconnected are all taken while they fit the buffers. -/
theorem run_empty_writes (S : Sodium) (n : Nat) (hc : w.connected = false) (hw : Window hist w)
    (hpkts : w.disconnectedPackets + n ≤ maxDisconnectPackets)
    (hbs : w.disconnectedBytes + 18 * n ≤ disconnectBufferBytes)
    (hsize : w.backupSize + 18 * n ≤ maxRecoveryBackupBytes) :
    ∃ r, ReflTransGen (WriterStep S fun _ _ => True) (w, hist) r ∧
      Window r.2 r.1 ∧ TookEmpty w r.1 n := by
  induction n with
  | zero => exact ⟨(w, hist), .refl, hw, hc, by simp, rfl, by simp, by simp, rfl⟩
  | succ n ih =>
    obtain ⟨⟨w', hist'⟩, hrun, hw', ht⟩ := ih (by omega) (by omega) (by omega)
    refine ⟨_, hrun.tail (.call _ (.writePacket 0 []) trivial), hw'.run_op (.writePacket 0 []), ?_⟩
    obtain ⟨hcon, hseq, hl, hs, hb, hp⟩ := ht
    dsimp only at hw' hcon hseq hl hs hb hp
    have hfits : w'.reserveFits ([] : Bytes).length = true := by
      refine (reserveFits_iff hw'.disconnected_nonneg hw'.size_nonneg).mpr ⟨?_, by omega, ?_⟩
      · rw [length_nil]; push_cast; omega
      · rw [length_nil, macLen]; push_cast; omega
    show TookEmpty w (w'.writePacket S 0 []).2 (n + 1)
    rw [writePacket_disconnected hcon hfits]
    refine ⟨hcon, ?_, ?_, ?_, ?_, ?_⟩ <;>
      simp only [length_cons, length_nil, macLen] <;> push_cast <;> omega

/-- A writer below the byte cap that is revived and disconnected again keeps its backup and may
take the full number of packets once more. -/
theorem run_reconnect (S : Sodium) (hw : Window hist w) (hsize : w.backupSize ≤ maxBackupBytes) :
    ReflTransGen (WriterStep S fun _ _ => True) (w, hist)
      ({ w with connected := false, disconnectedBytes := 0, disconnectedPackets := 0 }, hist) := by
  obtain ⟨n, hn, hcut, -, hkeep⟩ := revive_cut hw.size_eq
  have hall : w.backup.length ≤ n := by
    refine hkeep _ le_rfl ?_
    rwa [take_length, ← hw.size_eq]
  rw [take_of_length_le hall, ← hw.size_eq] at hcut
  have hrevive : WriterStep S (fun _ _ => True) _ _ := .call (w, hist) .revive trivial
  have hrun := (ReflTransGen.single hrevive).tail (.call _ .invalidate trivial)
  have hend : (WriterOp.invalidate.run S (WriterOp.revive.run S (w, hist))) =
      ({ w with connected := false, disconnectedBytes := 0, disconnectedPackets := 0 }, hist) := by
    show (w.revive.invalidate, hist) = _
    rw [hcut]
    rfl
  rwa [hend] at hrun

/-- `n` empty packets, then a reconnect without a packet. -/
theorem run_empty_outage (S : Sodium) (n : Nat)
    (hc : w.connected = false) (hw : Window hist w) (hd : w.disconnectedBytes = 0)
    (hp : w.disconnectedPackets = 0) (hn : n ≤ maxDisconnectPackets)
    (hsize : w.backupSize + 18 * n ≤ maxBackupBytes) :
    ∃ r, ReflTransGen (WriterStep S fun _ _ => True) (w, hist) r ∧ Window r.2 r.1 ∧
      r.1.connected = false ∧ r.1.disconnectedBytes = 0 ∧ r.1.disconnectedPackets = 0 ∧
      r.1.sequence = w.sequence + n ∧ r.1.backup.length = w.backup.length + n ∧
      r.1.backupSize = w.backupSize + 18 * n := by
  unfold maxBackupBytes at hsize
  unfold maxDisconnectPackets at hn
  obtain ⟨⟨w', hist'⟩, hrun, hw', ht⟩ := run_empty_writes S n hc hw
    (by unfold maxDisconnectPackets; omega) (by unfold disconnectBufferBytes; omega)
    (by unfold maxRecoveryBackupBytes; omega)
  obtain ⟨hcon, hseq, hl, hs, -, -⟩ := ht
  dsimp only at hw' hcon hseq hl hs
  refine ⟨_, hrun.trans (run_reconnect S hw' (by unfold maxBackupBytes; omega)), ?_, rfl, rfl, rfl, hseq, hl, hs⟩
  exact { hw' with disconnected_nonneg := le_rfl }

/-- **A servable sequence is refused.**  Two full disconnects and one packet more, all of empty
packets, with a revive and nothing else between them: the writer serves sequence 0, and the
receiver refuses the answer. -/
theorem servable_sequence_refused :
    ∃ r, ReflTransGen (WriterStep Aead.plainSodium fun _ _ => True)
        (BackedWriter.new (CryptoHandler.new zeroKey 0) false, []) r ∧
      ∃ buffer, r.1.recover 0 = .ok buffer ∧
        validateCatchupEncoding (CatchupBuffer.encode ⟨buffer⟩) =
          .error (invalidCatchup "catchup contains too many entries") := by
  obtain ⟨⟨w₁, h₁⟩, hrun₁, hw₁, hc₁, hd₁, hp₁, hs₁, hl₁, hb₁⟩ := run_empty_outage Aead.plainSodium
    262144 rfl (Window.new (CryptoHandler.new zeroKey 0) false) rfl rfl (by decide) (by decide)
  obtain ⟨⟨w₂, h₂⟩, hrun₂, hw₂, hc₂, hd₂, hp₂, hs₂, hl₂, hb₂⟩ := run_empty_outage Aead.plainSodium
    262144 hc₁ hw₁ hd₁ hp₁ (by decide) (by rw [hb₁]; decide)
  obtain ⟨⟨w₃, h₃⟩, hrun₃, hw₃, -, -, -, hs₃, hl₃, -⟩ := run_empty_outage Aead.plainSodium
    1 hc₂ hw₂ hd₂ hp₂ (by decide) (by rw [hb₂, hb₁]; decide)
  have hseq : w₃.sequence = 524289 := by rw [hs₃, hs₂, hs₁]; rfl
  have hlen : w₃.backup.length = 524289 := by rw [hl₃, hl₂, hl₁]; rfl
  dsimp only at hw₃
  have hok : w₃.recover 0 = .ok ((h₃.drop (0 : Int).toNat).map (List.drop 4)) := by
    have hhist := hw₃.sequence_eq
    rw [hw₃.recover_eq_serve, serve, if_neg (by omega), if_neg (by omega)]
  refine ⟨_, (hrun₁.trans hrun₂).trans hrun₃, _, hok, ?_⟩
  rw [hw₃.validate_recover hok, hseq]
  rfl

end EternalTerminal
