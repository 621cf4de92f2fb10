import EternalTerminal.Lib.Bytes

/-!
# Lib — the protobuf wire format

The part of proto2 a small message set needs, as the `prost` runtime reads and writes it: base-128
varints of at most ten bytes, keys, and fields by wire type.  A message is a list of fields; the
schema decides which tags it knows.

* `takeVarint_encodeVarint`: every 64-bit value is read back, with the bytes after it left.
* `decodeFields_bytesField_append`, `decodeFields_varintField_append`: a written field in front of
  any message is read back as that field.
* `repeatedBytes`, `optionalBytes`, `optionalVarint`: the values of a tag in a field list, refused
  when one of them has another wire type; unknown tags are skipped.
-/

namespace Protobuf
open List Option
variable {n k bits index tag wireType value fuel : Nat} {bytes varint : Bytes}

/-! ### Varints -/

/-- At most `k` bytes of seven bits each, lowest first, all but the last with the high bit. -/
def encodeVarintFrom : Nat → Nat → Bytes
  | 0, _ => []
  | k + 1, n =>
    if n < 128 then [UInt8.ofNat n]
    else UInt8.ofNat (n % 128 + 128) :: encodeVarintFrom k (n / 128)

def encodeVarint (n : Nat) : Bytes := encodeVarintFrom 10 n

/-- The value read so far is `value`, from `index` bytes; also how many bytes the varint took. -/
def decodeVarintFrom (index value : Nat) : Bytes → Option (Nat × Nat)
  | [] => none
  | byte :: bytes =>
    -- the tenth byte holds the one bit left of a 64-bit value
    if index = 9 ∧ 1 < byte.toNat then none
    else
      let value := value + byte.toNat % 128 * 2 ^ (7 * index)
      if byte.toNat < 128 then some (value, index + 1)
      else decodeVarintFrom (index + 1) value bytes

def decodeVarint (bytes : Bytes) : Option (Nat × Nat) := decodeVarintFrom 0 0 bytes

theorem length_encodeVarintFrom_le (k n : Nat) : (encodeVarintFrom k n).length ≤ k := by
  induction k generalizing n with
  | zero => exact le_rfl
  | succ k ih =>
    rw [encodeVarintFrom]
    split
    · exact Nat.succ_le_succ (Nat.zero_le k)
    · exact Nat.succ_le_succ (ih _)

/-- Seven bits of the value in each byte. -/
theorem length_encodeVarintFrom_le_of_lt {j : Nat} (hj : 0 < j) (k : Nat) (hn : n < 128 ^ j) :
    (encodeVarintFrom k n).length ≤ j := by
  induction k generalizing j n with
  | zero => exact Nat.zero_le j
  | succ k ih =>
    rw [encodeVarintFrom]
    split
    · exact hj
    rename_i hge
    cases j with
    | zero => cases hj
    | succ j =>
      rw [length_cons]
      refine Nat.succ_le_succ (ih ?_ ?_)
      · refine Nat.pos_of_ne_zero fun hzero => hge ?_
        rwa [hzero, Nat.zero_add, Nat.pow_one] at hn
      · exact Nat.div_lt_of_lt_mul (by rwa [Nat.pow_succ, Nat.mul_comm] at hn)

theorem length_encodeVarintFrom_mono (k : Nat) {m : Nat} (h : m ≤ n) :
    (encodeVarintFrom k m).length ≤ (encodeVarintFrom k n).length := by
  induction k generalizing m n with
  | zero => exact le_rfl
  | succ k ih =>
    rw [encodeVarintFrom, encodeVarintFrom]
    split
    · split
      · exact le_rfl
      · exact Nat.succ_le_succ (Nat.zero_le _)
    · rw [if_neg (by omega)]
      exact Nat.succ_le_succ (ih (Nat.div_le_div_right h))

theorem length_encodeVarint_le (n : Nat) : (encodeVarint n).length ≤ 10 :=
  length_encodeVarintFrom_le 10 n

theorem encodeVarint_of_lt (h : n < 128) : encodeVarint n = [UInt8.ofNat n] := by
  rw [encodeVarint, encodeVarintFrom, if_pos h]

theorem encodeVarint_ne_nil (n : Nat) : encodeVarint n ≠ [] := by
  rw [encodeVarint, encodeVarintFrom]
  split <;> exact cons_ne_nil _ _

/-- The bytes of a varint of value `n`, the shortest or not: seven bits in each, lowest first, all but the last with
the high bit, and at most `bits` of them in all. -/
inductive Varint : Nat → Bytes → Nat → Prop where
  | last {bits : Nat} {b : UInt8} (h : b.toNat < 128) (hb : b.toNat < 2 ^ bits) : Varint bits [b] b.toNat
  | more {bits n : Nat} {b : UInt8} {bytes : Bytes} (h : 128 ≤ b.toNat) (hv : Varint bits bytes n) :
      Varint (bits + 7) (b :: bytes) (b.toNat % 128 + n * 128)

theorem Varint.lt (h : Varint bits bytes n) : n < 2 ^ bits := by
  induction h with
  | last h hb => exact hb
  | more h _ ih =>
    rw [Nat.pow_add]
    omega

theorem Varint.ne_nil (h : Varint bits bytes n) : bytes ≠ [] := by
  cases h <;> exact cons_ne_nil _ _

theorem Varint.ofNat_last (h : n < 128) (hb : n < 2 ^ bits) : Varint bits [UInt8.ofNat n] n := by
  have hbyte : (UInt8.ofNat n).toNat = n := UInt8.toNat_ofNat_of_lt' (show _ < 256 by omega)
  have hlast : Varint bits _ (UInt8.ofNat n).toNat := .last (by omega) (by omega)
  rwa [hbyte] at hlast

/-- What is written is a varint of any bits that hold the value. -/
theorem varint_encodeVarintFrom (hk : bits < 7 * k) (hn : n < 2 ^ bits) : Varint bits (encodeVarintFrom k n) n := by
  induction k generalizing bits n with
  | zero => cases hk
  | succ k ih =>
    rw [encodeVarintFrom]
    split
    next hsm => exact .ofNat_last hsm hn
    next hbig =>
    have hbyte : (UInt8.ofNat (n % 128 + 128)).toNat = n % 128 + 128 :=
      UInt8.toNat_ofNat_of_lt' (show _ < 256 by omega)
    have hseven : 7 < bits := (Nat.pow_lt_pow_iff_right Nat.one_lt_two).mp (by omega : 2 ^ 7 < 2 ^ bits)
    obtain ⟨bits, rfl⟩ := Nat.exists_eq_add_of_le' hseven.le
    rw [Nat.pow_add] at hn
    have hmore := (ih (show bits < 7 * k by omega) (show n / 128 < _ by omega)).more
      (b := UInt8.ofNat (n % 128 + 128)) (by omega)
    rwa [hbyte, Nat.add_mod_right, Nat.mod_mod, Nat.mod_add_div'] at hmore

theorem varint_encodeVarint (hbits : bits ≤ 64) (hn : n < 2 ^ bits) : Varint bits (encodeVarint n) n :=
  varint_encodeVarintFrom (by omega) hn

/-- No encoding of a value is shorter than the one that is written. -/
theorem Varint.length_encodeVarintFrom_le (h : Varint bits bytes n) (k : Nat) :
    (encodeVarintFrom k n).length ≤ bytes.length := by
  induction h generalizing k with
  | last h =>
    cases k with
    | zero => exact Nat.zero_le _
    | succ k => rw [encodeVarintFrom, if_pos h, length_singleton, length_singleton]
  | @more bits n b bytes _ _ ih =>
    cases k with
    | zero => exact Nat.zero_le _
    | succ k =>
      rw [encodeVarintFrom]
      split
      · exact Nat.succ_le_succ (Nat.zero_le _)
      · rw [show (b.toNat % 128 + n * 128) / 128 = n by omega]
        exact Nat.succ_le_succ (ih k)

/-- A varint of the bits that are left is read, with any bytes after it. -/
theorem Varint.read (h : Varint bits varint n) (hbits : 7 * index + bits = 64)
    (value : Nat) (rest : Bytes) : decodeVarintFrom index value (varint ++ rest) =
      some (value + n * 2 ^ (7 * index), index + varint.length) := by
  induction h generalizing index value with
  | @last bits byte h hb =>
    rw [singleton_append, decodeVarintFrom, if_neg, if_pos h, Nat.mod_eq_of_lt h]
    · rfl
    · rintro ⟨rfl, hbyte⟩
      rw [show bits = 1 by omega] at hb
      omega
  | more h hv ih =>
    rw [cons_append, decodeVarintFrom, if_neg (by omega), if_neg (by omega), ih (by omega), length_cons, Nat.mul_succ,
      Nat.pow_add]
    ring_nf

/-- Nothing else is read. -/
theorem exists_varint {r : Nat × Nat} (hbits : 7 * index + bits = 64)
    (h : decodeVarintFrom index value bytes = some r) :
    ∃ varint rest n, bytes = varint ++ rest ∧ Varint bits varint n ∧
      r = (value + n * 2 ^ (7 * index), index + varint.length) := by
  induction bytes generalizing index value bits with
  | nil => cases h
  | cons byte bytes ih =>
    rw [decodeVarintFrom] at h
    split at h
    · cases h
    next hbyte =>
    dsimp only at h
    split at h
    next hlast =>
      cases h
      refine ⟨[byte], bytes, byte.toNat, rfl, .last hlast ?_, by rw [Nat.mod_eq_of_lt hlast]; rfl⟩
      by_cases hidx : index = 9
      · rw [show bits = 1 by omega]
        omega
      · exact hlast.trans_le (Nat.pow_le_pow_right Nat.two_pos (show 7 ≤ bits by omega))
    next hmore =>
      obtain ⟨varint, rest, n, rfl, hv, rfl⟩ := ih (show _ + (bits - 7) = 64 by omega) h
      have hv := hv.more (b := byte) (by omega)
      rw [Nat.sub_add_cancel (by omega)] at hv
      refine ⟨byte :: varint, rest, _, rfl, hv, ?_⟩
      rw [length_cons, Nat.mul_succ, Nat.pow_add]
      ring_nf

/-- **A varint of at most 64 bits is read**, with any bytes after it. -/
theorem Varint.decodeVarint_append (h : Varint 64 varint n) (rest : Bytes) :
    decodeVarint (varint ++ rest) = some (n, varint.length) := by
  simpa [decodeVarint] using h.read (show 7 * 0 + 64 = 64 from rfl) 0 rest

/-- **The reader takes nothing else.** -/
theorem exists_varint_of_decodeVarint {r : Nat × Nat} (h : decodeVarint bytes = some r) :
    ∃ varint rest, bytes = varint ++ rest ∧ Varint 64 varint r.1 ∧ r.2 = varint.length := by
  obtain ⟨varint, rest, n, rfl, hv, rfl⟩ := exists_varint (Nat.zero_add 64) h
  exact ⟨varint, rest, rfl, by simpa using hv, Nat.zero_add _⟩

/-! ### Fields -/

/-- The value of a field, by its wire type. -/
inductive WireValue where
  | varint (value : Nat)
  | fixed64 (bytes : Bytes)
  | bytes (bytes : Bytes)
  | group
  | fixed32 (bytes : Bytes)
  deriving DecidableEq

/-- A field on the wire. -/
structure Field where
  tag : Nat
  value : WireValue
  deriving DecidableEq

/-- Groups nest at most this deep. -/
def recursionLimit : Nat := 100

/-- A varint and the bytes after it. -/
def takeVarint (bytes : Bytes) : Option (Nat × Bytes) :=
  (decodeVarint bytes).map fun r => (r.1, bytes.drop r.2)

/-- `n` bytes and the bytes after them. -/
def takeBytes (n : Nat) (bytes : Bytes) : Option (Bytes × Bytes) :=
  if n ≤ bytes.length then some (bytes.take n, bytes.drop n) else none

/-- Tag and wire type, and the bytes after the key. -/
def decodeKey (bytes : Bytes) : Option ((Nat × Nat) × Bytes) := do
  let (key, rest) ← takeVarint bytes
  if key < 2 ^ 32 ∧ key % 8 ≤ 5 ∧ 1 ≤ key / 8 then some ((key / 8, key % 8), rest) else none

/-- A value that is no group. -/
def decodeScalar (wireType : Nat) (bytes : Bytes) : Option (WireValue × Bytes) :=
  match wireType with
  | 0 => (takeVarint bytes).map fun r => (.varint r.1, r.2)
  | 1 => (takeBytes 8 bytes).map fun r => (.fixed64 r.1, r.2)
  | 2 => do
      let (length, rest) ← takeVarint bytes
      let r ← takeBytes length rest
      return (.bytes r.1, r.2)
  | 5 => (takeBytes 4 bytes).map fun r => (.fixed32 r.1, r.2)
  | _ => none

/-- Skip to the end of the groups `groups`, innermost first; at most `fuel` keys. -/
def skipGroups : Nat → List Nat → Bytes → Option Bytes
  | _, [], bytes => some bytes
  | 0, _ :: _, _ => none
  | fuel + 1, tag :: groups, bytes => do
      let ((inner, wireType), rest) ← decodeKey bytes
      if wireType = 4 then
        if inner = tag then skipGroups fuel groups rest else none
      else if recursionLimit ≤ groups.length + 1 then none
      else if wireType = 3 then skipGroups fuel (inner :: tag :: groups) rest
      else
        let (_, rest) ← decodeScalar wireType rest
        skipGroups fuel (tag :: groups) rest

/-- The field at the front, and the bytes after it. -/
def decodeField (bytes : Bytes) : Option (Field × Bytes) := do
  let ((tag, wireType), rest) ← decodeKey bytes
  if wireType = 3 then
    let rest ← skipGroups rest.length [tag] rest
    return (⟨tag, .group⟩, rest)
  else
    let (value, rest) ← decodeScalar wireType rest
    return (⟨tag, value⟩, rest)

/-- At most `fuel` fields. -/
def decodeFieldsFrom : Nat → Bytes → Option (List Field)
  | _, [] => some []
  | 0, _ :: _ => none
  | fuel + 1, byte :: bytes => do
      let (field, rest) ← decodeField (byte :: bytes)
      let fields ← decodeFieldsFrom fuel rest
      return field :: fields

/-- All fields of a message; every field takes a byte, so its length is fuel enough. -/
def decodeFields (bytes : Bytes) : Option (List Field) := decodeFieldsFrom bytes.length bytes

def encodeKey (tag wireType : Nat) : Bytes := encodeVarint (tag * 8 + wireType)

/-- A length-delimited field. -/
def bytesField (tag : Nat) (bytes : Bytes) : Bytes :=
  encodeKey tag 2 ++ encodeVarint bytes.length ++ bytes

def varintField (tag value : Nat) : Bytes := encodeKey tag 0 ++ encodeVarint value

/-! ### The values of a tag -/

/-- Every value of a repeated bytes field, in order. -/
def repeatedBytes (tag : Nat) : List Field → Option (List Bytes)
  | [] => some []
  | field :: fields =>
    if field.tag = tag then
      match field.value with
      | .bytes bytes => (repeatedBytes tag fields).map (bytes :: ·)
      | _ => none
    else repeatedBytes tag fields

/-- The last value of an optional bytes field. -/
def optionalBytes (tag : Nat) (fields : List Field) : Option (Option Bytes) :=
  (repeatedBytes tag fields).map List.getLast?

def repeatedVarint (tag : Nat) : List Field → Option (List Nat)
  | [] => some []
  | field :: fields =>
    if field.tag = tag then
      match field.value with
      | .varint value => (repeatedVarint tag fields).map (value :: ·)
      | _ => none
    else repeatedVarint tag fields

/-- The last value of an optional varint field. -/
def optionalVarint (tag : Nat) (fields : List Field) : Option (Option Nat) :=
  (repeatedVarint tag fields).map List.getLast?

/-- The last value of an optional string field; every value of the field has to be UTF-8. -/
def optionalString (tag : Nat) (fields : List Field) : Option (Option Bytes) := do
  let values ← repeatedBytes tag fields
  if values.all fun bytes => ByteArray.validateUTF8 ⟨bytes.toArray⟩ then some values.getLast? else none

/-- An `int64` as it is read. -/
def int64OfVarint (n : Nat) : Int := Int.bmod n (2 ^ 64)

/-- An `int32` as it is written: sign-extended to 64 bits. -/
def varintOfInt32 (n : Int) : Nat := (n % 2 ^ 64).toNat

/-- An `int32` as it is read: the low 32 bits. -/
def int32OfVarint (n : Nat) : Int := Int.bmod n (2 ^ 32)

/-! ### Reading back what was written -/

theorem int32OfVarint_varintOfInt32 {n : Int} (h : -2 ^ 31 ≤ n ∧ n < 2 ^ 31) :
    int32OfVarint (varintOfInt32 n) = n := by
  have hv : (varintOfInt32 n : Int) = n % 2 ^ 64 :=
    Int.toNat_of_nonneg (Int.emod_nonneg _ (by norm_num))
  unfold int32OfVarint
  rw [hv, Int.bmod_def]
  split <;> omega

theorem varintOfInt32_lt (n : Int) : varintOfInt32 n < 2 ^ 64 := by
  unfold varintOfInt32
  omega

/-- **Varints round trip**, with any bytes after them. -/
theorem takeVarint_encodeVarint (hn : n < 2 ^ 64) (rest : Bytes) :
    takeVarint (encodeVarint n ++ rest) = some (n, rest) := by
  simp [takeVarint, (varint_encodeVarint le_rfl hn).decodeVarint_append]

theorem decodeKey_encodeKey (htag : 1 ≤ tag) (hlt : tag < 2 ^ 29) (hw : wireType ≤ 5) (rest : Bytes) :
    decodeKey (encodeKey tag wireType ++ rest) = some ((tag, wireType), rest) := by
  have hdiv : (tag * 8 + wireType) / 8 = tag := by omega
  have hmod : (tag * 8 + wireType) % 8 = wireType := by omega
  simp only [decodeKey, encodeKey, takeVarint_encodeVarint (by omega : tag * 8 + wireType < 2 ^ 64),
    bind_eq_bind, bind_some, hdiv, hmod]
  rw [if_pos ⟨by omega, hw, htag⟩]

/-- A field with a one-byte key for bytes. -/
theorem decodeField_bytes (tag : Nat) {key : UInt8} (bytes : Bytes) (hkey : key = UInt8.ofNat (tag * 8 + 2))
    (htag : 1 ≤ tag) (hsm : tag < 15) :
    decodeField (key :: bytes) = (takeVarint bytes).bind fun r =>
      (takeBytes r.1 r.2).map fun t => (⟨tag, .bytes t.1⟩, t.2) := by
  have hdec : decodeKey (key :: bytes) = some ((tag, 2), bytes) := by
    have hencode := decodeKey_encodeKey htag (by omega) (by decide : 2 ≤ 5) bytes
    rwa [encodeKey, encodeVarint_of_lt (by omega), ← hkey, singleton_append] at hencode
  rw [decodeField, hdec]
  simp only [bind_eq_bind, bind_some, decodeScalar]
  cases takeVarint bytes with
  | none => rfl
  | some r =>
    simp only [bind_some]
    cases takeBytes r.1 r.2 <;> rfl

/-! ### Every field takes a byte, and what is read fits 64 bits -/

/-- A value of bytes is no longer than a length can say. -/
def WireValue.Fits64 : WireValue → Prop
  | .bytes content => content.length < 2 ^ 64
  | _ => True

theorem takeVarint_spec {r : Nat × Bytes} (h : takeVarint bytes = some r) :
    r.2.length < bytes.length ∧ r.1 < 2 ^ 64 := by
  obtain ⟨v, hv, rfl⟩ := map_eq_some_iff.mp h
  obtain ⟨varint, rest, rfl, hvarint, hlen⟩ := exists_varint_of_decodeVarint hv
  have := length_pos_of_ne_nil hvarint.ne_nil
  refine ⟨?_, hvarint.lt⟩
  rw [hlen, drop_left, length_append]
  exact Nat.lt_add_of_pos_left this

theorem takeBytes_spec {r : Bytes × Bytes} (h : takeBytes n bytes = some r) :
    r.2.length ≤ bytes.length ∧ r.1.length ≤ n := by
  unfold takeBytes at h
  split at h
  · cases h
    refine ⟨?_, length_take_le _ _⟩
    rw [length_drop]
    exact Nat.sub_le _ _
  · cases h

theorem decodeKey_length_lt {r : (Nat × Nat) × Bytes} (h : decodeKey bytes = some r) : r.2.length < bytes.length := by
  obtain ⟨v, hv, h⟩ := bind_eq_some_iff.mp h
  dsimp only at h
  split at h
  · cases h; exact (takeVarint_spec hv).1
  · cases h

theorem decodeScalar_spec {r : WireValue × Bytes} (h : decodeScalar wireType bytes = some r) :
    r.2.length ≤ bytes.length ∧ r.1.Fits64 := by
  unfold decodeScalar at h
  split at h
  · obtain ⟨v, hv, rfl⟩ := map_eq_some_iff.mp h
    exact ⟨(takeVarint_spec hv).1.le, trivial⟩
  · obtain ⟨v, hv, rfl⟩ := map_eq_some_iff.mp h
    exact ⟨(takeBytes_spec hv).1, trivial⟩
  · obtain ⟨v, hv, h⟩ := bind_eq_some_iff.mp h
    obtain ⟨u, hu, h⟩ := bind_eq_some_iff.mp h
    cases h
    obtain ⟨hlt, hfits⟩ := takeVarint_spec hv
    exact ⟨(takeBytes_spec hu).1.trans hlt.le, (takeBytes_spec hu).2.trans_lt hfits⟩
  · obtain ⟨v, hv, rfl⟩ := map_eq_some_iff.mp h
    exact ⟨(takeBytes_spec hv).1, trivial⟩
  · cases h

theorem skipGroups_length_le {groups : List Nat} {rest : Bytes}
    (h : skipGroups fuel groups bytes = some rest) : rest.length ≤ bytes.length := by
  induction fuel generalizing groups bytes with
  | zero =>
    cases groups with
    | nil => cases h; exact le_rfl
    | cons tag groups => cases h
  | succ fuel ih =>
    cases groups with
    | nil => cases h; exact le_rfl
    | cons tag groups =>
      obtain ⟨⟨⟨inner, wireType⟩, rest'⟩, hkey, h⟩ := bind_eq_some_iff.mp h
      have hlt := (decodeKey_length_lt hkey).le
      dsimp only at h
      split at h
      · split at h
        · exact (ih h).trans hlt
        · cases h
      split at h
      · cases h
      split at h
      · exact (ih h).trans hlt
      · obtain ⟨v, hv, h⟩ := bind_eq_some_iff.mp h
        exact (ih h).trans ((decodeScalar_spec hv).1.trans hlt)

theorem decodeField_spec {r : Field × Bytes} (h : decodeField bytes = some r) :
    r.2.length < bytes.length ∧ r.1.value.Fits64 := by
  obtain ⟨⟨⟨tag, wireType⟩, rest⟩, hkey, h⟩ := bind_eq_some_iff.mp h
  have hlt := decodeKey_length_lt hkey
  dsimp only at h
  split at h
  · obtain ⟨v, hv, h⟩ := bind_eq_some_iff.mp h
    cases h
    exact ⟨(skipGroups_length_le hv).trans_lt hlt, trivial⟩
  · obtain ⟨v, hv, h⟩ := bind_eq_some_iff.mp h
    cases h
    exact (decodeScalar_spec hv).imp_left (·.trans_lt hlt)

theorem decodeFieldsFrom_eq (h : bytes.length ≤ fuel) :
    decodeFieldsFrom fuel bytes = decodeFields bytes := by
  -- any two amounts of fuel that cover the bytes agree, by induction on one of them
  suffices H : ∀ n m (bs : Bytes), bs.length ≤ n → bs.length ≤ m →
      decodeFieldsFrom n bs = decodeFieldsFrom m bs from H fuel bytes.length bytes h le_rfl
  intro n
  induction n with
  | zero =>
    intro m bs hn _
    obtain rfl := length_eq_zero_iff.mp (Nat.le_zero.mp hn)
    cases m <;> rfl
  | succ n ih =>
    intro m bs hn hm
    cases bs with
    | nil => cases m <;> rfl
    | cons byte bs =>
      cases m with
      | zero => exact absurd hm (Nat.not_succ_le_zero _)
      | succ m =>
        simp only [decodeFieldsFrom]
        cases hf : decodeField (byte :: bs) with
        | none => rfl
        | some r =>
          have hlt := (decodeField_spec hf).1
          have := ih m r.2 (by omega) (by omega)
          simp only [bind_eq_bind, bind_some, this]

theorem decodeFields_of_decodeField {field : Field} {rest : Bytes} (h : decodeField bytes = some (field, rest)) :
    decodeFields bytes = (decodeFields rest).map (field :: ·) := by
  have hlt := (decodeField_spec h).1
  cases bytes with
  | nil => exact absurd hlt (Nat.not_lt_zero _)
  | cons byte bytes =>
    rw [decodeFields, length_cons, decodeFieldsFrom, h]
    simp only [bind_eq_bind, bind_some]
    rw [decodeFieldsFrom_eq (Nat.le_of_lt_succ hlt)]
    cases decodeFields rest <;> rfl

/-- **A written bytes field in front of a message is read back.** -/
theorem decodeFields_bytesField_append (htag : 1 ≤ tag)
    (hlt : tag < 2 ^ 29) (hlen : bytes.length < 2 ^ 64) (rest : Bytes) :
    decodeFields (bytesField tag bytes ++ rest) =
      (decodeFields rest).map (⟨tag, .bytes bytes⟩ :: ·) := by
  refine decodeFields_of_decodeField ?_
  rw [bytesField, append_assoc, append_assoc]
  simp [decodeField, decodeKey_encodeKey htag hlt (by norm_num : 2 ≤ 5), decodeScalar,
    takeVarint_encodeVarint hlen, takeBytes]

/-- **A written varint field in front of a message is read back.** -/
theorem decodeFields_varintField_append (htag : 1 ≤ tag) (hlt : tag < 2 ^ 29) (hv : value < 2 ^ 64) (rest : Bytes) :
    decodeFields (varintField tag value ++ rest) =
      (decodeFields rest).map (⟨tag, .varint value⟩ :: ·) := by
  refine decodeFields_of_decodeField ?_
  rw [varintField, append_assoc]
  simp [decodeField, decodeKey_encodeKey htag hlt (by norm_num : 0 ≤ 5), decodeScalar, takeVarint_encodeVarint hv]

@[simp] theorem decodeFields_nil : decodeFields [] = some [] := rfl

variable {fields : List Field}

theorem decodeFieldsFrom_fits
    (h : decodeFieldsFrom fuel bytes = some fields) : ∀ field ∈ fields, field.value.Fits64 := by
  induction fuel generalizing bytes fields with
  | zero =>
    cases bytes with
    | nil => cases h; exact nofun
    | cons byte bytes => cases h
  | succ fuel ih =>
    cases bytes with
    | nil => cases h; exact nofun
    | cons byte bytes =>
      obtain ⟨⟨field, rest⟩, hfield, h⟩ := bind_eq_some_iff.mp h
      obtain ⟨fields, hfld, h⟩ := bind_eq_some_iff.mp h
      cases h
      exact forall_mem_cons.mpr ⟨(decodeField_spec hfield).2, ih hfld⟩

theorem repeatedBytes_lt {values : List Bytes}
    (hfld : ∀ field ∈ fields, field.value.Fits64) (h : repeatedBytes tag fields = some values) :
    ∀ bytes ∈ values, bytes.length < 2 ^ 64 := by
  induction fields generalizing values with
  | nil => cases h; exact nofun
  | cons field fields ih =>
    obtain ⟨hfield, hrest⟩ := forall_mem_cons.mp hfld
    rw [repeatedBytes] at h
    split at h
    · split at h
      next bytes hbs =>
        obtain ⟨values, hvalues, rfl⟩ := map_eq_some_iff.mp h
        rw [hbs] at hfield
        exact forall_mem_cons.mpr ⟨hfield, ih hrest hvalues⟩
      · cases h
    · exact ih hrest h

/-- **The bytes of an optional field** are no longer than a length can say. -/
theorem optionalBytes_lt {message : Bytes} {value : Option Bytes}
    (hfld : decodeFields message = some fields) (h : optionalBytes tag fields = some value) :
    ∀ bytes ∈ value, bytes.length < 2 ^ 64 := by
  obtain ⟨values, hvalues, rfl⟩ := map_eq_some_iff.mp h
  intro bytes hbs
  exact repeatedBytes_lt (decodeFieldsFrom_fits hfld) hvalues bytes (List.mem_of_getLast? hbs)

end Protobuf
