import EternalTerminal.Net.ForwardedSocket

/-!
# Net — forwarded data on the wire

A worker reads `PORT_FORWARD_DATA` with a reader of its own when the message has a direction, a socket and a buffer, in
this order and nothing else (`try_fast_parse_data`); any other message goes to the protobuf decoder.

Main result: `fast_parse_agrees`.
-/

namespace EternalTerminal
open Bytes Protobuf List PortForwardData
variable {sourceToDest : Bool} {byte : UInt8} {index value n bits : Nat} {socketId : Int}
variable {bytes varint rest payload buffer : Bytes}

/-! ### The general decoder -/

/-- The last value of an optional string field, as text. -/
def optionalText (tag : Nat) (fields : List Field) : Option (Option String) := do
  let values ← repeatedBytes tag fields
  let texts ← values.mapM fun bytes => String.fromUTF8? ⟨bytes.toArray⟩
  return texts.getLast?

/-- The fields of an optional message; several occurrences are merged. -/
def optionalMessage (tag : Nat) (fields : List Field) : Option (Option (List Field)) := do
  let values ← repeatedBytes tag fields
  let messages ← values.mapM decodeFields
  return if messages.isEmpty then none else some messages.flatten

def PortForwardWindow.ofFields (fields : List Field) : Option PortForwardWindow := do
  let bytes ← optionalVarint 1 fields
  let packets ← optionalVarint 2 fields
  return ⟨bytes.map int64OfVarint, packets.map int32OfVarint⟩

/-- `prost`'s reader of the message. -/
def PortForwardData.decode (payload : Bytes) : Option PortForwardData := do
  let fields ← decodeFields payload
  let sourceToDestination ← optionalVarint 1 fields
  let socketId ← optionalVarint 2 fields
  let buffer ← optionalBytes 3 fields
  let error ← optionalText 4 fields
  let closed ← optionalVarint 5 fields
  let halfClose ← optionalVarint 6 fields
  let windowFields ← optionalMessage 7 fields
  let window ← match windowFields with
    | none => some none
    | some fields => (PortForwardWindow.ofFields fields).map some
  return {
    sourceToDestination := sourceToDestination.map (· != 0)
    socketId := socketId.map int32OfVarint
    buffer, error
    closed := closed.map (· != 0)
    halfClose := halfClose.map (· != 0)
    window }

/-! ### The fast reader -/

/-- The loop of `decode_varint_u32`: the value and the bytes after it.  The bits of a byte are above those read so far,
so they are added. -/
def decodeVarintU32From (shift result : Nat) : Bytes → Option (Nat × Bytes)
  | [] => none
  | byte :: bytes =>
    if 32 ≤ shift then none
    else
      let bits := byte.toNat % 128
      if shift = 28 ∧ 0x0f < bits then none
      else
        let result := result + bits * 2 ^ shift
        if byte.toNat < 128 then some (result, bytes) else decodeVarintU32From (shift + 7) result bytes

def decodeVarintU32 (bytes : Bytes) : Option (Nat × Bytes) := decodeVarintU32From 0 0 bytes

/-- The loop of `decode_varint_usize`, with a `usize` of 64 bits: a shift drops what does not fit. -/
def decodeVarintUsizeFrom (shift result : Nat) : Bytes → Option (Nat × Bytes)
  | [] => none
  | byte :: bytes =>
    if 64 ≤ shift then none
    else
      let result := result + byte.toNat % 128 * 2 ^ shift % 2 ^ 64
      if byte.toNat < 128 then some (result, bytes) else decodeVarintUsizeFrom (shift + 7) result bytes

def decodeVarintUsize (bytes : Bytes) : Option (Nat × Bytes) := decodeVarintUsizeFrom 0 0 bytes

def directionOf (byte : UInt8) : Option Bool :=
  if byte = 0 then some false else if byte = 1 then some true else none

/-- The direction, the socket and where the buffer is: its offset and its length. -/
def tryFastParseData (payload : Bytes) : Option (Bool × Int × Nat × Nat) :=
  if payload.length < 6 then none
  else match payload with
    | 0x08 :: direction :: 0x10 :: encodedId =>
      match directionOf direction, decodeVarintU32 encodedId with
      | some sourceToDest, some (socketId, 0x1a :: encodedLen) =>
        match decodeVarintUsize encodedLen with
        | some (bufLen, buffer) =>
          -- the buffer ends the payload
          if buffer.length = bufLen then
            some (sourceToDest, int32OfVarint socketId, payload.length - buffer.length, bufLen)
          else none
        | none => none
      | _, _ => none
    | _ => none

/-! ### Lengths beyond 64 bits -/

/-- A byte that another one of the varint follows. -/
def isContinued (byte : UInt8) : Bool := 128 ≤ byte.toNat

/-- How many bytes a varint takes. -/
def varintWidth (bytes : Bytes) : Nat := (bytes.takeWhile isContinued).length + 1

/-- The varint that starts here, of which `index` bytes were read, is one of at most 64 bits. -/
def Fits (index : Nat) (bytes : Bytes) : Prop := index + varintWidth bytes = 10 → (bytes.getD (9 - index) 0).toNat ≤ 1

/-- What follows the direction, the socket and the key of the buffer. -/
def lengthField (payload : Bytes) : Bytes := ((payload.drop 3).dropWhile isContinued).drop 2

/-- The length of the buffer is encoded in at most 64 bits: in ten bytes, the last is at most one. -/
def LengthFits (payload : Bytes) : Prop := Fits 0 (lengthField payload)

theorem varintWidth_last (h : byte.toNat < 128) (bytes : Bytes) : varintWidth (byte :: bytes) = 1 := by
  rw [varintWidth, takeWhile_cons_of_neg (by simp [isContinued, h])]
  rfl

theorem varintWidth_more (h : ¬ byte.toNat < 128) (bytes : Bytes) :
    varintWidth (byte :: bytes) = varintWidth bytes + 1 := by
  rw [varintWidth, takeWhile_cons_of_pos (by simpa [isContinued] using h), varintWidth, length_cons]

theorem fits_more (h : ¬ byte.toNat < 128) (hidx : index < 9) (bytes : Bytes) :
    Fits index (byte :: bytes) ↔ Fits (index + 1) bytes := by
  have hget : (byte :: bytes).getD (9 - index) 0 = bytes.getD (9 - (index + 1)) 0 := by
    rw [show 9 - index = (9 - (index + 1)) + 1 by omega]
    rfl
  rw [Fits, Fits, varintWidth_more h, hget, Nat.add_comm (varintWidth bytes), ← Nat.add_assoc]

/-- The reader of sockets takes what the general one takes, below `2 ^ 32`. -/
theorem decodeVarintU32_eq (hidx : index ≤ 5) (h : decodeVarintU32From (7 * index) value bytes = some (n, rest)) :
    decodeVarintFrom index value bytes = some (n, index + varintWidth bytes) ∧ rest = bytes.drop (varintWidth bytes) := by
  induction bytes generalizing index value with
  | nil => cases h
  | cons byte bytes ih =>
    rw [decodeVarintU32From] at h
    split at h
    · cases h
    rename_i hshift
    dsimp only at h
    split at h
    · cases h
    rw [decodeVarintFrom, if_neg (by omega)]
    dsimp only
    split at h
    next hlast =>
      cases h
      rw [if_pos hlast, varintWidth_last hlast]
      exact ⟨rfl, rfl⟩
    rename_i hmore
    obtain ⟨hread, hrest⟩ := @ih (index + 1) _ (by omega) h
    rw [if_neg hmore, varintWidth_more hmore, hread, hrest, drop_succ_cons,
      Nat.add_comm (varintWidth bytes), ← Nat.add_assoc]
    exact ⟨rfl, rfl⟩

/-- The bits of the first nine bytes fit. -/
theorem bits_mod (byte : UInt8) (hidx : index ≤ 8) :
    byte.toNat % 128 * 2 ^ (7 * index) % 2 ^ 64 = byte.toNat % 128 * 2 ^ (7 * index) := by
  refine Nat.mod_eq_of_lt ?_
  calc byte.toNat % 128 * 2 ^ (7 * index)
      < 128 * 2 ^ (7 * index) := Nat.mul_lt_mul_of_pos_right (Nat.mod_lt _ (by decide)) (Nat.pow_pos (by decide))
    _ ≤ 2 ^ 7 * 2 ^ (7 * 8) := Nat.mul_le_mul_left _ (Nat.pow_le_pow_right (by decide) (by omega))
    _ ≤ 2 ^ 64 := by decide

/-- The reader of lengths takes what the general one takes, unless the varint has more than 64 bits; then the general
one takes nothing. -/
theorem decodeVarintUsize_cases (hidx : index ≤ 9)
    (h : decodeVarintUsizeFrom (7 * index) value bytes = some (n, rest)) :
    rest = bytes.drop (varintWidth bytes) ∧
      ((Fits index bytes ∧ decodeVarintFrom index value bytes = some (n, index + varintWidth bytes)) ∨
        (¬ Fits index bytes ∧ decodeVarintFrom index value bytes = none)) := by
  induction bytes generalizing index value with
  | nil => cases h
  | cons byte bytes ih =>
    rw [decodeVarintUsizeFrom] at h
    rw [if_neg (by omega)] at h
    dsimp only at h
    split at h
    next hlast =>
      cases h
      rw [varintWidth_last hlast, Fits, varintWidth_last hlast, decodeVarintFrom]
      refine ⟨rfl, ?_⟩
      by_cases hten : index = 9
      · subst hten
        by_cases hone : byte.toNat ≤ 1
        · -- the one bit that is left
          refine .inl ⟨fun _ => hone, ?_⟩
          have hbit : byte.toNat % 128 * 2 ^ (7 * 9) % 2 ^ 64 = byte.toNat % 128 * 2 ^ (7 * 9) := by
            rw [Nat.mod_eq_of_lt]
            omega
          rw [if_neg (by omega)]
          dsimp only
          rw [if_pos hlast, hbit]
        · refine .inr ⟨fun hfits => hone (hfits rfl), ?_⟩
          rw [if_pos ⟨rfl, by omega⟩]
      · refine .inl ⟨fun hwidth => absurd hwidth (by omega), ?_⟩
        have hbits := bits_mod byte (by omega : index ≤ 8)
        rw [if_neg (by omega)]
        dsimp only
        rw [if_pos hlast, hbits]
    next hmore =>
      by_cases hten : index = 9
      · -- an eleventh byte would be needed
        subst hten
        cases bytes with
        | nil => cases h
        | cons next bytes => rw [decodeVarintUsizeFrom, if_pos (by omega)] at h; cases h
      obtain ⟨hrest, hcas⟩ := @ih (index + 1) _ (by omega) h
      have hbits := bits_mod byte (by omega : index ≤ 8)
      rw [hbits] at hcas
      rw [varintWidth_more hmore, fits_more hmore (by omega), decodeVarintFrom, if_neg (by omega)]
      dsimp only
      rw [if_neg hmore, drop_succ_cons, Nat.add_comm (varintWidth bytes), ← Nat.add_assoc]
      exact ⟨hrest, hcas⟩

/-! ### The fields of a message -/

/-- A field with a one-byte key for a varint. -/
theorem decodeField_varint (tag : Nat) {key : UInt8} (hkey : key = UInt8.ofNat (tag * 8))
    (htag : 1 ≤ tag) (hsm : tag < 16) (h : takeVarint bytes = some (n, rest)) :
    decodeField (key :: bytes) = some (⟨tag, .varint n⟩, rest) := by
  have hdec : decodeKey (key :: bytes) = some ((tag, 0), bytes) := by
    have hencode := decodeKey_encodeKey htag (by omega) (by decide : 0 ≤ 5) bytes
    rwa [encodeKey, encodeVarint_of_lt (by omega), Nat.add_zero, ← hkey, singleton_append] at hencode
  rw [decodeField, hdec]
  simp [decodeScalar, h]

/-- A payload that the fast reader accepts, with its parts. -/
inductive FastParsed : Bytes → Bool → Int → Nat → Nat → Prop where
  | mk {direction : UInt8} {sourceToDest : Bool} {id len : Nat} {encodedId encodedLen buffer : Bytes}
      (hdirection : directionOf direction = some sourceToDest)
      (hid : decodeVarintU32 encodedId = some (id, 0x1a :: encodedLen))
      (hlen : decodeVarintUsize encodedLen = some (len, buffer)) (hbuffer : buffer.length = len) :
      FastParsed (0x08 :: direction :: 0x10 :: encodedId) sourceToDest (int32OfVarint id)
        ((0x08 :: direction :: 0x10 :: encodedId).length - buffer.length) len

variable {start len id : Nat} {direction : UInt8}

theorem fastParsed_of_tryFastParseData (h : tryFastParseData payload = some (sourceToDest, socketId, start, len)) :
    FastParsed payload sourceToDest socketId start len := by
  unfold tryFastParseData at h
  split at h
  · cases h
  split at h
  · split at h
    next hdir hid =>
      split at h
      next hlen =>
        split at h
        next hbuf =>
          simp only [Option.some.injEq, Prod.mk.injEq] at h
          obtain ⟨rfl, rfl, rfl, rfl⟩ := h
          exact .mk hdir hid hlen hbuf
        · cases h
      · cases h
    · cases h
  · cases h

theorem takeVarint_of_u32 (h : decodeVarintU32 bytes = some (n, rest)) :
    takeVarint bytes = some (n, rest) ∧ rest = bytes.drop (varintWidth bytes) := by
  obtain ⟨hread, hrest⟩ := @decodeVarintU32_eq 0 0 _ _ _ (by decide) h
  refine ⟨?_, hrest⟩
  rw [takeVarint, Protobuf.decodeVarint, hread, hrest, Nat.zero_add]
  rfl

/-- What follows a varint. -/
theorem dropWhile_isContinued (bytes : Bytes) : (bytes.dropWhile isContinued).drop 1 = bytes.drop (varintWidth bytes) := by
  induction bytes with
  | nil => rfl
  | cons byte bytes ih =>
    by_cases hlast : byte.toNat < 128
    · rw [varintWidth_last hlast, dropWhile_cons_of_neg (by simp [isContinued, hlast])]
    · rw [varintWidth_more hlast, dropWhile_cons_of_pos (by simpa [isContinued] using hlast), ih, drop_succ_cons]

theorem lengthField_of_id {encodedId encodedLen : Bytes}
    (hid : decodeVarintU32 encodedId = some (id, 0x1a :: encodedLen)) :
    lengthField (0x08 :: direction :: 0x10 :: encodedId) = encodedLen := by
  have hrest := (takeVarint_of_u32 hid).2
  rw [← dropWhile_isContinued] at hrest
  have hdrop := congrArg (List.drop 1) hrest
  rw [drop_drop] at hdrop
  exact hdrop.symm

/-- The message with a direction, a socket and a buffer. -/
def dataOf (sourceToDest : Bool) (socketId : Int) (buffer : Bytes) : PortForwardData where
  sourceToDestination := some sourceToDest
  socketId := some socketId
  buffer := some buffer
  error := none
  closed := none
  halfClose := none
  window := none

theorem directionOf_some (h : directionOf direction = some sourceToDest) :
    direction.toNat < 128 ∧ (direction.toNat != 0) = sourceToDest := by
  unfold directionOf at h
  split at h
  next hzero =>
    subst hzero
    exact ⟨by decide, Option.some.inj h⟩
  split at h
  next hone =>
    subst hone
    exact ⟨by decide, Option.some.inj h⟩
  · cases h

/-- The decoder on the fields of such a message. -/
theorem decode_of_fields (hdir : directionOf direction = some sourceToDest)
    (h : decodeFields payload = some [⟨1, .varint direction.toNat⟩, ⟨2, .varint id⟩, ⟨3, .bytes buffer⟩]) :
    decode payload = some (dataOf sourceToDest (int32OfVarint id) buffer) := by
  rw [decode, h]
  simp [optionalVarint, repeatedVarint, optionalBytes, repeatedBytes, optionalText, optionalMessage, dataOf,
    (directionOf_some hdir).2]

theorem decodeFields_of_none (h : decodeField (byte :: bytes) = none) :
    decodeFields (byte :: bytes) = none := by
  rw [decodeFields, length_cons, decodeFieldsFrom, h]
  rfl

theorem slice_suffix (h : buffer <:+ payload) :
    slice (payload.length - buffer.length) (payload.length - buffer.length + buffer.length) payload = buffer := by
  obtain ⟨front, rfl⟩ := h
  rw [slice, length_append, Nat.add_sub_cancel, ← length_append, take_length, drop_left]

/-- **The fast reader and the decoder** say the same just when the length has at most 64 bits. -/
theorem FastParsed.decode_iff (h : FastParsed payload sourceToDest socketId start len) :
    decode payload = some (dataOf sourceToDest socketId (slice start (start + len) payload)) ↔
      LengthFits payload := by
  obtain ⟨hdir, hid, hlen, hbuf⟩ := h
  rename_i direction id encodedId encodedLen buffer
  obtain ⟨hrest, hcas⟩ := @decodeVarintUsize_cases 0 0 _ _ _ (by decide) hlen
  obtain ⟨htake, hrest'⟩ := takeVarint_of_u32 hid
  have hsuf : buffer <:+ 0x08 :: direction :: 0x10 :: encodedId := by
    have hlast : buffer <:+ encodedLen := by
      rw [hrest]
      exact drop_suffix _ _
    have hmiddle : encodedLen <:+ encodedId :=
      (suffix_cons _ _).trans (by rw [hrest']; exact drop_suffix _ _)
    exact hlast.trans (hmiddle.trans ((suffix_cons _ _).trans ((suffix_cons _ _).trans (suffix_cons _ _))))
  have hslice := slice_suffix hsuf
  -- the direction and the socket are read by both
  have hbyte := (directionOf_some hdir).1
  have hfst : takeVarint (direction :: 0x10 :: encodedId) = some (direction.toNat, 0x10 :: encodedId) := by
    simp [takeVarint, Protobuf.decodeVarint, decodeVarintFrom, hbyte, Nat.mod_eq_of_lt hbyte]
  have hfld : decodeFields (0x08 :: direction :: 0x10 :: encodedId) =
      (decodeFields (0x1a :: encodedLen)).map fun fields =>
        ⟨1, .varint direction.toNat⟩ :: ⟨2, .varint id⟩ :: fields := by
    have h₁ : decodeField (0x08 :: direction :: 0x10 :: encodedId) = _ :=
      decodeField_varint 1 rfl (by decide) (by decide) hfst
    have h₂ : decodeField (0x10 :: encodedId) = _ := decodeField_varint 2 rfl (by decide) (by decide) htake
    rw [decodeFields_of_decodeField h₁, decodeFields_of_decodeField h₂, Option.map_map]
    rfl
  have hthird : decodeField (0x1a :: encodedLen) = _ := decodeField_bytes 3 encodedLen rfl (by decide) (by decide)
  rw [← hbuf, hslice, LengthFits, lengthField_of_id hid]
  rcases hcas with ⟨hfits, hread⟩ | ⟨hnot, hread⟩
  · refine ⟨fun _ => hfits, fun _ => ?_⟩
    have hvarint : takeVarint encodedLen = some (len, buffer) := by
      rw [takeVarint, Protobuf.decodeVarint, hread, hrest, Nat.zero_add]
      rfl
    rw [hvarint, Option.bind_some, takeBytes, if_pos hbuf.ge, ← hbuf, take_length, drop_length] at hthird
    refine decode_of_fields hdir ?_
    rw [hfld, decodeFields_of_decodeField hthird]
    rfl
  · refine ⟨fun hdec => ?_, fun hfits => absurd hfits hnot⟩
    have hvarint : takeVarint encodedLen = none := by
      rw [takeVarint, Protobuf.decodeVarint, hread]
      rfl
    rw [hvarint, Option.bind_none] at hthird
    rw [decode, hfld, decodeFields_of_none hthird] at hdec
    cases hdec

/-! ### Reading back -/

/-- The reader of lengths takes every varint of at most 64 bits. -/
theorem decodeVarintUsize_varint (h : Varint bits varint n) (hbits : 7 * index + bits = 64) (value : Nat) (rest : Bytes) :
    decodeVarintUsizeFrom (7 * index) value (varint ++ rest) = some (value + n * 2 ^ (7 * index), rest) := by
  induction h generalizing index value with
  | @last bits byte h hb =>
    have hfits : byte.toNat * 2 ^ (7 * index) < 2 ^ 64 := by
      rw [← hbits, Nat.add_comm, Nat.pow_add]
      exact Nat.mul_lt_mul_of_pos_right hb (Nat.pow_pos Nat.two_pos)
    rw [singleton_append, decodeVarintUsizeFrom, if_neg (by omega), if_pos h, Nat.mod_eq_of_lt h, Nat.mod_eq_of_lt hfits]
  | more h hv ih =>
    rw [cons_append, decodeVarintUsizeFrom, if_neg (by omega), if_neg (by omega), ← Nat.mul_succ, ih (by omega),
      bits_mod _ (by omega), Nat.mul_succ, Nat.pow_add]
    ring_nf

/-- The reader of sockets takes every varint of at most 32 bits. -/
theorem decodeVarintU32_varint (h : Varint bits varint n) (hbits : 7 * index + bits = 32) (value : Nat) (rest : Bytes) :
    decodeVarintU32From (7 * index) value (varint ++ rest) = some (value + n * 2 ^ (7 * index), rest) := by
  induction h generalizing index value with
  | @last bits byte h hb =>
    -- the fifth byte has four bits
    have hfour : ¬ (7 * index = 28 ∧ 0x0f < byte.toNat % 128) := by
      rintro ⟨hidx, hlarge⟩
      rw [show bits = 4 by omega] at hb
      omega
    rw [singleton_append, decodeVarintU32From, if_neg (by omega), if_neg hfour, if_pos h, Nat.mod_eq_of_lt h]
  | more h hv ih =>
    rw [cons_append, decodeVarintU32From, if_neg (by omega), if_neg (by omega), if_neg (by omega), ← Nat.mul_succ,
      ih (by omega), Nat.mul_succ, Nat.pow_add]
    ring_nf

theorem decodeVarintUsize_encodeVarint (hn : n < 2 ^ 64) (rest : Bytes) :
    decodeVarintUsize (encodeVarint n ++ rest) = some (n, rest) := by
  simpa [decodeVarintUsize] using
    decodeVarintUsize_varint (varint_encodeVarint le_rfl hn) (show 7 * 0 + 64 = 64 from rfl) 0 rest

theorem decodeVarintU32_encodeVarint (hn : n < 2 ^ 32) (rest : Bytes) :
    decodeVarintU32 (encodeVarint n ++ rest) = some (n, rest) := by
  simpa [decodeVarintU32] using
    decodeVarintU32_varint (varint_encodeVarint (by decide) hn) (show 7 * 0 + 32 = 32 from rfl) 0 rest

theorem tryFastParseData_encode (sourceToDest : Bool) (hpos : 0 < socketId) (hlt : socketId < 2 ^ 31)
    (hbuf : buffer.length < 2 ^ 64) :
    ∃ start, tryFastParseData (encodeDataPacket sourceToDest socketId buffer) =
        some (sourceToDest, socketId, start, buffer.length) ∧
      slice start (start + buffer.length) (encodeDataPacket sourceToDest socketId buffer) = buffer := by
  have hvarint : varintOfInt32 socketId < 2 ^ 32 := by
    unfold varintOfInt32
    omega
  have hid := decodeVarintU32_encodeVarint hvarint (0x1a :: (encodeVarint buffer.length ++ buffer))
  have hlen := decodeVarintUsize_encodeVarint hbuf buffer
  have hdir : directionOf (if sourceToDest then 1 else 0) = some sourceToDest := by cases sourceToDest <;> rfl
  have hsock := int32OfVarint_varintOfInt32 ⟨by omega, hlt⟩
  have hlength : ¬ (encodeDataPacket sourceToDest socketId buffer).length < 6 := by
    have h₁ := length_pos_of_ne_nil (encodeVarint_ne_nil (varintOfInt32 socketId))
    have h₂ := length_pos_of_ne_nil (encodeVarint_ne_nil buffer.length)
    simp only [encodeDataPacket, length_cons, length_append]
    omega
  refine ⟨(encodeDataPacket sourceToDest socketId buffer).length - buffer.length, ?_, slice_suffix ?_⟩
  · unfold encodeDataPacket at hlength ⊢
    rw [tryFastParseData, if_neg hlength]
    simp only [hdir, hid, hlen, if_true, hsock]
  · refine ⟨0x08 :: (if sourceToDest then 1 else 0) :: 0x10 ::
      (encodeVarint (varintOfInt32 socketId) ++ 0x1a :: encodeVarint buffer.length), ?_⟩
    simp [encodeDataPacket]

/-- **The fast reader of forwarded data.**  When it accepts a payload, the protobuf decoder finds the same direction,
socket and buffer and nothing else, just when the length of the buffer is encoded in at most 64 bits.  And it reads
back what `encode_data_packet` writes, for every direction, positive socket and buffer. -/
theorem fast_parse_agrees (payload : Bytes) :
    (∀ sourceToDest socketId start len, tryFastParseData payload = some (sourceToDest, socketId, start, len) →
        (decode payload = some (dataOf sourceToDest socketId (slice start (start + len) payload)) ↔
          LengthFits payload)) ∧
    ∀ sourceToDest (socketId : Int) (buffer : Bytes), 0 < socketId → socketId < 2 ^ 31 → buffer.length < 2 ^ 64 →
      ∃ start, tryFastParseData (encodeDataPacket sourceToDest socketId buffer) =
          some (sourceToDest, socketId, start, buffer.length) ∧
        slice start (start + buffer.length) (encodeDataPacket sourceToDest socketId buffer) = buffer :=
  ⟨fun _ _ _ _ h => (fastParsed_of_tryFastParseData h).decode_iff,
    fun sourceToDest _ _ hpos hlt hbuffer => tryFastParseData_encode sourceToDest hpos hlt hbuffer⟩

/-- A payload with the buffer `hi` for socket 7, as it is written. -/
def plainData : Bytes := encodeDataPacket true 7 [104, 105]

theorem fast_parse_agrees_plain :
    tryFastParseData plainData = some (true, 7, 6, 2) ∧ LengthFits plainData ∧
      decode plainData = some (dataOf true 7 [104, 105]) := by
  have hfits : LengthFits plainData := by
    unfold LengthFits Fits
    decide +kernel
  have hparse : tryFastParseData plainData = some (true, 7, 6, 2) := by decide +kernel
  exact ⟨hparse, hfits, ((fast_parse_agrees _).1 _ _ _ _ hparse).mpr hfits⟩

/-- The length 2 in ten bytes, with a bit above the 64th: the fast reader takes the buffer, the decoder refuses the
message. -/
theorem fast_parse_takes_long_length :
    tryFastParseData ([8, 1, 16, 7, 26, 0x82, 0x80, 0x80, 0x80, 0x80, 0x80, 0x80, 0x80, 0x80, 2] ++ [104, 105]) =
        some (true, 7, 15, 2) ∧
      decode
        ([8, 1, 16, 7, 26, 0x82, 0x80, 0x80, 0x80, 0x80, 0x80, 0x80, 0x80, 0x80, 2] ++ [104, 105]) = none := by
  exact ⟨by decide +kernel, by decide +kernel⟩

end EternalTerminal
