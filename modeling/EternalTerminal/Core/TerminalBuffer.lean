import EternalTerminal.Core.Packet
import EternalTerminal.Lib.Protobuf

/-!
# Core — terminal buffers

The payload of a `TERMINAL_BUFFER` packet is a `TerminalBuffer` message: terminal bytes, and whether
they are the remote's stderr.  The hot paths read and write its usual encodings by hand
(`decodeTerminalBuffer`, `encodeTerminalBuffer`, `appendTerminalBuffer`); everything else goes
through the protobuf decoder (`TerminalBuffer`).

`appendTerminalBuffer_payload` is what a merge in place leaves of any payload that is read by hand.  On what the
protobuf encoder writes the two agree: `decodeTerminalBuffer_encode`, and `appendTerminalBuffer_encode` for a merge.
-/

namespace EternalTerminal
open Protobuf List

/-- The length after the key, from at most `rounds` bytes, and the bytes after it. -/
def decodeLength : Nat → Nat → Nat → Bytes → Option (Nat × Bytes)
  | 0, _, _, _ => none
  | _ + 1, _, _, [] => none
  | rounds + 1, shift, len, b :: rest =>
    let len := len + b.toNat % 128 * 2 ^ shift
    if b.toNat < 128 then some (len, rest) else decodeLength rounds (shift + 7) len rest

/-- The bytes and the stderr flag of a payload in one of the usual encodings. -/
def decodeTerminalBuffer : Bytes → Option (Bytes × Bool)
  | 0x0a :: encoded =>
    match decodeLength 5 0 0 encoded with
    | none => none
    | some (len, rest) =>
      if rest.length < len then none
      else match rest.drop len with
        | [] => some (rest.take len, false)
        | [0x10, 0] => some (rest.take len, false)
        | [0x10, 1] => some (rest.take len, true)
        | _ => none
  | _ => none

def encodeTerminalBuffer (bytes : Bytes) (isStderr : Bool) : Bytes :=
  0x0a :: (encodeVarint bytes.length ++ bytes ++ if isStderr then [0x10, 1] else [])

/-- Append bytes of the same stream to a packet in place: the length is rewritten at the width the
usual encoding of the old length has. -/
def appendTerminalBuffer (packet : Packet) (bytes : Bytes) (isStderr : Bool) (limit : Nat) :
    Option Packet :=
  if packet.encrypted then none
  else match decodeTerminalBuffer packet.payload with
    | none => none
    | some (body, stderr) =>
      let oldLen := body.length
      let newLen := oldLen + bytes.length
      if stderr ≠ isStderr ∨ limit < newLen then none
      else
        let oldStart := 1 + (encodeVarint oldLen).length
        let varint := encodeVarint newLen
        let newStart := 1 + varint.length
        let payload := packet.payload.take (oldStart + oldLen)
        let payload :=
          if oldStart < newStart then
            payload.take 1 ++ List.replicate (newStart - oldStart) 0 ++ payload.drop 1
          else payload
        let payload := payload.take 1 ++ varint ++ payload.drop newStart
        some { packet with payload := payload ++ bytes ++ if isStderr then [0x10, 1] else [] }

/-- The message as the protobuf library reads and writes it. -/
structure TerminalBuffer where
  buffer : Option Bytes
  isStderr : Option Bool
  deriving DecidableEq

namespace TerminalBuffer

def encode (m : TerminalBuffer) : Bytes :=
  m.buffer.elim [] (bytesField 1) ++ m.isStderr.elim [] fun b => varintField 2 b.toNat

def decode (bytes : Bytes) : Option TerminalBuffer := do
  let fields ← decodeFields bytes
  let buffer ← optionalBytes 1 fields
  let isStderr ← optionalVarint 2 fields
  return ⟨buffer, isStderr.map fun n => n != 0⟩

end TerminalBuffer
variable {m : TerminalBuffer} {isStderr : Bool} {bytes : Bytes}

/-! ### Lengths -/

variable {limit rounds n shift len : Nat} {rest payload body : Bytes} {packet merged : Packet}

/-- A length that is read by hand is a varint, the shortest or not. -/
theorem exists_varint_of_decodeLength {bits : Nat} (hbits : 7 * rounds ≤ bits)
    (h : decodeLength rounds shift len bytes = some (n, rest)) :
    ∃ varint value, bytes = varint ++ rest ∧ Varint bits varint value ∧ n = len + value * 2 ^ shift := by
  induction rounds generalizing bits shift len bytes with
  | zero => cases h
  | succ rounds ih =>
    cases bytes with
    | nil => cases h
    | cons b bytes =>
      rw [decodeLength] at h
      split at h
      next hlast =>
        cases h
        have hb : b.toNat < 2 ^ bits := hlast.trans_le (Nat.pow_le_pow_right Nat.two_pos (show 7 ≤ bits by omega))
        exact ⟨[b], b.toNat, rfl, .last hlast hb, by rw [Nat.mod_eq_of_lt hlast]⟩
      next hmore =>
        obtain ⟨varint, value, rfl, hv, rfl⟩ := ih (show 7 * rounds ≤ bits - 7 by omega) h
        have hv := hv.more (b := b) (by omega)
        rw [Nat.sub_add_cancel (by omega)] at hv
        refine ⟨b :: varint, _, rfl, hv, ?_⟩
        rw [Nat.pow_add]
        ring

/-- **What is read by hand**: the key, a varint for the length, the bytes, and a flag or none. -/
theorem decodeTerminalBuffer_spec (h : decodeTerminalBuffer payload = some (body, isStderr)) :
    ∃ (varint : Bytes) (flag : Option Bool), Varint 64 varint body.length ∧ flag.getD false = isStderr ∧
      payload = 0x0a :: (varint ++ (body ++ flag.elim [] fun b => [0x10, UInt8.ofNat b.toNat])) := by
  unfold decodeTerminalBuffer at h
  split at h
  next encoded =>
    split at h
    · cases h
    rename_i len rest hlength
    split at h
    · cases h
    rename_i hlen
    obtain ⟨varint, value, rfl, hv, hvalue⟩ := exists_varint_of_decodeLength (by decide : 7 * 5 ≤ 64) hlength
    rw [Nat.zero_add, Nat.pow_zero, Nat.mul_one] at hvalue
    subst hvalue
    have hbody : (rest.take len).length = len := by
      rw [length_take]
      omega
    have hrest : ∀ tail, rest.drop len = tail → 0x0a :: (varint ++ rest) = 0x0a :: (varint ++ (rest.take len ++ tail)) := by
      rintro _ rfl
      rw [take_append_drop]
    split at h <;> cases h
    next hdrop => exact ⟨varint, none, by rwa [hbody], rfl, hrest _ hdrop⟩
    next hdrop => exact ⟨varint, some false, by rwa [hbody], rfl, hrest _ hdrop⟩
    next hdrop => exact ⟨varint, some true, by rwa [hbody], rfl, hrest _ hdrop⟩
  · cases h

/-! ### The packet after an append -/

/-- A payload that the reader accepts is long enough for the buffer at the assumed place. -/
theorem decodeTerminalBuffer_room (h : decodeTerminalBuffer payload = some (body, isStderr)) :
    ∃ encoded, payload = 0x0a :: encoded ∧ (encodeVarint body.length).length + body.length ≤ encoded.length := by
  obtain ⟨varint, flag, hv, -, rfl⟩ := decodeTerminalBuffer_spec h
  have hshort : (encodeVarint body.length).length ≤ varint.length := hv.length_encodeVarintFrom_le 10
  refine ⟨_, rfl, ?_⟩
  rw [length_append, length_append]
  omega

/-- **The packet afterwards**: the new length, the bytes at the assumed place, the new bytes and the flag. -/
theorem appendTerminalBuffer_payload (bytes : Bytes)
    (hplain : packet.encrypted = false) (hdec : decodeTerminalBuffer packet.payload = some (body, isStderr))
    (hlim : body.length + bytes.length ≤ limit) :
    appendTerminalBuffer packet bytes isStderr limit = some { packet with
      payload := 0x0a :: (encodeVarint (body.length + bytes.length) ++
        ((packet.payload.drop (1 + (encodeVarint body.length).length)).take body.length ++ bytes ++
          if isStderr then [0x10, 1] else [])) } := by
  obtain ⟨encoded, hpl, hroom⟩ := decodeTerminalBuffer_room hdec
  have hmono : (encodeVarint body.length).length ≤ (encodeVarint (body.length + bytes.length)).length :=
    length_encodeVarintFrom_mono 10 (Nat.le_add_right _ _)
  generalize hold : (encodeVarint body.length).length = old at hroom hmono
  -- the payload without its flag, and the bytes at the assumed place
  have htake : packet.payload.take (1 + old + body.length) =
      0x0a :: (encoded.take old ++ (encoded.drop old).take body.length) := by
    rw [hpl, Nat.add_assoc, Nat.add_comm 1, take_succ_cons, take_add]
  have hdrop : packet.payload.drop (1 + old) = encoded.drop old := by
    rw [hpl, Nat.add_comm 1, drop_succ_cons]
  have hwidth : (encoded.take old).length = old := by
    rw [length_take]
    omega
  unfold appendTerminalBuffer
  rw [hplain, if_neg Bool.false_ne_true, hdec]
  dsimp only
  rw [if_neg (by simpa using hlim), hold, htake, hdrop]
  generalize encodeVarint (body.length + bytes.length) = varint at hmono ⊢
  generalize encoded.take old = front at hwidth
  generalize (encoded.drop old).take body.length = moved
  split
  · -- the length field is widened by zeros in front of it
    rename_i hwider
    have hmoved : (0x0a :: (List.replicate (1 + varint.length - (1 + old)) (0 : UInt8) ++ (front ++ moved))).drop
        (1 + varint.length) = moved := by
      rw [Nat.add_comm 1 varint.length, drop_succ_cons, ← append_assoc,
        drop_left' (by rw [length_append, length_replicate]; omega)]
    simp only [take_succ_cons, take_zero, drop_succ_cons, drop_zero, cons_append, nil_append, hmoved, append_assoc]
  next hsame =>
    have hmoved : (0x0a :: (front ++ moved)).drop (1 + varint.length) = moved := by
      rw [Nat.add_comm 1 varint.length, drop_succ_cons, drop_left' (by omega)]
    simp only [take_succ_cons, take_zero, cons_append, nil_append, hmoved, append_assoc]

/-- A packet that is appended to is a plain one that the reader accepts. -/
theorem of_appendTerminalBuffer (h : appendTerminalBuffer packet bytes isStderr limit = some merged) :
    packet.encrypted = false ∧ ∃ body, decodeTerminalBuffer packet.payload = some (body, isStderr) ∧
      body.length + bytes.length ≤ limit := by
  unfold appendTerminalBuffer at h
  split at h
  · cases h
  rename_i hpl
  split at h
  · cases h
  rename_i body stderr hdec
  dsimp only at h
  split at h
  · cases h
  next hok =>
    rw [not_or, not_not, Nat.not_lt] at hok
    exact ⟨Bool.eq_false_of_not_eq_true hpl, body, by rw [hdec, hok.1], hok.2⟩

/-- The key and at least one byte of length stand before the bytes. -/
theorem length_decodeTerminalBuffer
    (h : decodeTerminalBuffer payload = some (bytes, isStderr)) : bytes.length + 2 ≤ payload.length := by
  obtain ⟨encoded, rfl, hroom⟩ := decodeTerminalBuffer_room h
  have hpos := length_pos_of_ne_nil (encodeVarint_ne_nil bytes.length)
  rw [length_cons]
  omega

/-- A merged packet grows by the bytes, and by at most two bytes of length and a new flag. -/
theorem appendTerminalBuffer_some
    (h : appendTerminalBuffer packet bytes isStderr limit = some merged) (hlim : limit < 128 ^ 3) :
    merged.header = packet.header ∧
      merged.payload.length ≤ packet.payload.length + bytes.length + 4 := by
  obtain ⟨hplain, body, hdec, hle⟩ := of_appendTerminalBuffer h
  have hbody := length_decodeTerminalBuffer hdec
  have hnew : (encodeVarint (body.length + bytes.length)).length ≤ 3 :=
    length_encodeVarintFrom_le_of_lt (by decide) 10 (by omega)
  have hflag : (if isStderr = true then ([0x10, 1] : Bytes) else []).length ≤ 2 := by
    split <;> decide
  rw [appendTerminalBuffer_payload bytes hplain hdec hle] at h
  cases h
  refine ⟨rfl, ?_⟩
  simp only [length_cons, length_append, length_take]
  omega

/-! ### Canonical payloads -/

/-- A bound on the length that every byte vector meets. -/
def TerminalBuffer.Encodable (m : TerminalBuffer) : Prop := ∀ bytes ∈ m.buffer, bytes.length < 2 ^ 64

theorem TerminalBuffer.encode_some (bytes : Bytes) (isStderr : Option Bool) :
    encode ⟨some bytes, isStderr⟩ =
      0x0a :: (encodeVarint bytes.length ++ (bytes ++ isStderr.elim [] fun b => [0x10, UInt8.ofNat b.toNat])) := by
  have hflag : (isStderr.elim [] fun b => varintField 2 b.toNat) =
      isStderr.elim [] fun b => [0x10, UInt8.ofNat b.toNat] := by
    rcases isStderr with _ | _ | _ <;> rfl
  rw [encode, hflag, Option.elim_some, bytesField, append_assoc, append_assoc]
  rfl

/-- The protobuf reader on a buffer behind any encoding of its length. -/
theorem TerminalBuffer.decode_some {varint : Bytes} (hv : Varint 64 varint bytes.length) (isStderr : Option Bool) :
    decode (0x0a :: (varint ++ (bytes ++ isStderr.elim [] fun b => [0x10, UInt8.ofNat b.toNat]))) =
      some ⟨some bytes, isStderr⟩ := by
  have hflag : decodeFields (isStderr.elim [] fun b => [0x10, UInt8.ofNat b.toNat]) =
      some (isStderr.elim [] fun b => [⟨2, .varint b.toNat⟩]) := by
    rcases isStderr with _ | _ | _ <;> decide
  have hfield : ∀ rest, decodeField (0x0a :: (varint ++ (bytes ++ rest))) = some (⟨1, .bytes bytes⟩, rest) := by
    intro rest
    rw [decodeField_bytes 1 _ (by decide) (by decide) (by decide), takeVarint, hv.decodeVarint_append]
    simp [takeBytes]
  rw [decode, decodeFields_of_decodeField (hfield _), hflag]
  rcases isStderr with _ | _ | _ <;> simp [optionalVarint, optionalBytes, repeatedVarint, repeatedBytes]

theorem TerminalBuffer.decode_encode (h : m.Encodable) : decode m.encode = some m := by
  obtain ⟨buffer, isStderr⟩ := m
  cases buffer with
  | none => rcases isStderr with _ | _ | _ <;> decide
  | some bytes =>
    rw [encode_some]
    exact decode_some (varint_encodeVarint le_rfl (h bytes rfl)) isStderr

theorem TerminalBuffer.encodable_of_decode (h : decode payload = some m) :
    m.Encodable := by
  obtain ⟨fields, hfld, h⟩ := Option.bind_eq_some_iff.mp h
  obtain ⟨buffer, hbuf, h⟩ := Option.bind_eq_some_iff.mp h
  obtain ⟨isStderr, -, h⟩ := Option.bind_eq_some_iff.mp h
  cases h
  exact optionalBytes_lt hfld hbuf

/-- A length of at most `rounds` groups of seven bits is read as it was written; a longer one is not read
at all. -/
theorem decodeLength_encodeVarintFrom {k : Nat} (hpos : 0 < rounds ∨ 0 < n) (hk : rounds ≤ k) :
    decodeLength rounds shift len (encodeVarintFrom k n ++ rest) =
      if n < 128 ^ rounds then some (len + n * 2 ^ shift, rest) else none := by
  induction rounds generalizing k shift len n with
  | zero => rw [decodeLength, if_neg (by omega)]
  | succ rounds ih =>
    obtain ⟨k, rfl⟩ : ∃ j, k = j + 1 := ⟨k - 1, by omega⟩
    rw [encodeVarintFrom]
    split
    next hsm =>
      have hb : (UInt8.ofNat n).toNat = n := UInt8.toNat_ofNat_of_lt' (show _ < 256 by omega)
      have hpow : 128 ≤ 128 ^ (rounds + 1) := Nat.le_self_pow (Nat.succ_ne_zero _) 128
      rw [singleton_append, decodeLength, hb, Nat.mod_eq_of_lt hsm, if_pos hsm, if_pos (hsm.trans_le hpow)]
    have hb : (UInt8.ofNat (n % 128 + 128)).toNat = n % 128 + 128 :=
      UInt8.toNat_ofNat_of_lt' (show _ < 256 by omega)
    -- the low seven bits and the bits above them
    have hspl : n % 128 * 2 ^ shift + n / 128 * 2 ^ (shift + 7) = n * 2 ^ shift := by
      rw [Nat.pow_add, ← Nat.mul_assoc, Nat.mul_right_comm, ← Nat.add_mul, Nat.mul_comm (n / 128), Nat.mod_add_div]
    rw [cons_append, decodeLength, hb, if_neg (by omega), ih (.inr (by omega)) (by omega), Nat.add_mod_right,
      Nat.mod_mod, Nat.add_assoc, hspl]
    exact if_congr (Nat.div_lt_iff_lt_mul (by decide)) rfl rfl

theorem decodeLength_encodeVarint (n : Nat) (rest : Bytes) :
    decodeLength 5 0 0 (encodeVarint n ++ rest) = if n < 2 ^ 35 then some (n, rest) else none := by
  rw [encodeVarint, decodeLength_encodeVarintFrom (.inl (by decide)) (by decide)]
  norm_num

/-- The reader on a payload behind the shortest length. -/
theorem decodeTerminalBuffer_of_length {moved : Bytes} {n : Nat} (hlen : moved.length = n) (isStderr : Bool) :
    decodeTerminalBuffer (0x0a :: (encodeVarint n ++ (moved ++ if isStderr then [0x10, 1] else []))) =
      if n < 2 ^ 35 then some (moved, isStderr) else none := by
  rw [decodeTerminalBuffer, decodeLength_encodeVarint]
  by_cases hn : n < 2 ^ 35
  · rw [if_pos hn, if_pos hn]
    subst hlen
    simp only [length_append, drop_left, take_left]
    rw [if_neg (by omega)]
    cases isStderr <;> rfl
  · rw [if_neg hn, if_neg hn]

theorem encodeTerminalBuffer_eq (bytes : Bytes) (isStderr : Bool) :
    encodeTerminalBuffer bytes isStderr =
      TerminalBuffer.encode ⟨some bytes, if isStderr then some true else none⟩ := by
  rw [TerminalBuffer.encode_some, encodeTerminalBuffer, append_assoc]
  cases isStderr <;> rfl

/-- **The hand-written reader agrees with the protobuf encoder.** -/
theorem decodeTerminalBuffer_encode (h : decodeTerminalBuffer m.encode = some (bytes, isStderr)) :
    m.buffer = some bytes ∧ m.isStderr.getD false = isStderr := by
  obtain ⟨buffer, flag⟩ := m
  cases buffer with
  | none =>
    rcases flag with _ | _ | _ <;> cases h
  | some body =>
    rw [TerminalBuffer.encode_some, decodeTerminalBuffer] at h
    split at h
    · cases h
    rename_i len rest hlen
    rw [decodeLength_encodeVarint] at hlen
    split at hlen <;> cases hlen
    simp only [drop_left, take_left] at h
    rw [if_neg (by rw [length_append]; omega)] at h
    rcases flag with _ | _ | _ <;> cases h <;> exact ⟨rfl, rfl⟩

/-- **A merge in place** writes the canonical encoding of the two buffers. -/
theorem appendTerminalBuffer_encode {header : UInt8} {flag : Option Bool}
    (h : appendTerminalBuffer (.new header (TerminalBuffer.encode ⟨some body, flag⟩)) bytes isStderr limit =
      some merged) :
    flag.getD false = isStderr ∧ body.length + bytes.length ≤ limit ∧
      merged = .new header (encodeTerminalBuffer (body ++ bytes) isStderr) := by
  obtain ⟨hplain, body', hdec, hle⟩ := of_appendTerminalBuffer h
  obtain ⟨hbody, hflag⟩ := decodeTerminalBuffer_encode hdec
  obtain rfl : body = body' := Option.some.inj hbody
  refine ⟨hflag, hle, ?_⟩
  -- the bytes are at the assumed place
  have hplace : ((TerminalBuffer.encode ⟨some body, flag⟩).drop (1 + (encodeVarint body.length).length)).take
      body.length = body := by
    rw [TerminalBuffer.encode_some, Nat.add_comm 1, drop_succ_cons, drop_left, take_left]
  rw [appendTerminalBuffer_payload bytes hplain hdec hle] at h
  cases h
  simp only [Packet.new, hplace, encodeTerminalBuffer, length_append, append_assoc]

/-- **The two readers agree**: what is read by hand the protobuf reader reads too, with the same buffer and the same
flag, which may be left out for `false`; and what is written by hand is read back by hand, for every buffer whose
length has at most 35 bits. -/
theorem terminal_buffer_readers_agree :
    (∀ (payload buf : Bytes) (flag : Bool), decodeTerminalBuffer payload = some (buf, flag) →
      ∃ m, TerminalBuffer.decode payload = some m ∧ m.buffer = some buf ∧ m.isStderr.getD false = flag) ∧
    ∀ (bytes : Bytes) (isStderr : Bool), bytes.length < 2 ^ 35 →
      decodeTerminalBuffer (encodeTerminalBuffer bytes isStderr) = some (bytes, isStderr) := by
  refine ⟨fun payload buf flag h => ?_, fun bytes isStderr hlen => ?_⟩
  · obtain ⟨varint, isStderr, hv, hflag, rfl⟩ := decodeTerminalBuffer_spec h
    exact ⟨⟨some buf, isStderr⟩, TerminalBuffer.decode_some hv isStderr, rfl, hflag⟩
  · rw [encodeTerminalBuffer, append_assoc, decodeTerminalBuffer_of_length rfl, if_pos hlen]

/-- A length in two bytes where one would do, and a flag that is written out. -/
theorem terminal_buffer_readers_agree_long_length :
    (∃ m, TerminalBuffer.decode [0x0a, 0x82, 0x00, 97, 98, 0x10, 0] = some m ∧ m.buffer = some [97, 98] ∧
        m.isStderr.getD false = false) ∧
      decodeTerminalBuffer (encodeTerminalBuffer [97, 98] true) = some ([97, 98], true) :=
  ⟨terminal_buffer_readers_agree.1 _ _ _ (by decide), terminal_buffer_readers_agree.2 _ _ (by decide)⟩

end EternalTerminal
