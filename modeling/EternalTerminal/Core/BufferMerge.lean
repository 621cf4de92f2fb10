import EternalTerminal.Core.TerminalBuffer

/-!
# Core — appending to a terminal buffer in place

`append_terminal_buffer` takes a buffer to start where it would after the shortest encoding of its length.  The reader
`decode_terminal_buffer` accepts longer encodings too, and then the buffer starts later.

Main result: `append_keeps_iff`.
-/

namespace EternalTerminal
open Protobuf List

/-- The call on a packet that is changed in place: whether it appended, and the packet. -/
def appendInPlace (packet : Packet) (bytes : Bytes) (isStderr : Bool) (limit : Nat) : Bool × Packet :=
  match appendTerminalBuffer packet bytes isStderr limit with
  | some merged => (true, merged)
  | none => (false, packet)

/-- The reader gets the old bytes and the new ones, with the same flag; a packet that was not appended to is as it
was. -/
def AppendKeeps (packet : Packet) (bytes : Bytes) (isStderr : Bool) (limit : Nat) : Prop :=
  ((appendInPlace packet bytes isStderr limit).1 = true → ∃ body,
      decodeTerminalBuffer packet.payload = some (body, isStderr) ∧
      decodeTerminalBuffer (appendInPlace packet bytes isStderr limit).2.payload = some (body ++ bytes, isStderr)) ∧
    ((appendInPlace packet bytes isStderr limit).1 = false → (appendInPlace packet bytes isStderr limit).2 = packet)

/-- The buffer starts where the shortest encoding of its length would end. -/
def AtStart (payload body : Bytes) : Prop :=
  (payload.drop (1 + (encodeVarint body.length).length)).take body.length = body

/-- A packet that is appended to has its buffer there, and the new length has at most 35 bits. -/
def AppendsInPlace (packet : Packet) (bytes : Bytes) (isStderr : Bool) (limit : Nat) : Prop :=
  ∀ body, packet.encrypted = false → decodeTerminalBuffer packet.payload = some (body, isStderr) →
    body.length + bytes.length ≤ limit →
      AtStart packet.payload body ∧ body.length + bytes.length < 2 ^ 35

/-- **Appending in place.**  For every packet, bytes, flag and limit: a call that appends leaves the reader with the
old bytes, then the new ones, and the same flag, and one that does not leaves the packet as it was, just when a packet
that is appended to has its buffer at the assumed place and the new length is below `2 ^ 35`. -/
theorem append_keeps_iff (packet : Packet) (bytes : Bytes) (isStderr : Bool) (limit : Nat) :
    AppendKeeps packet bytes isStderr limit ↔ AppendsInPlace packet bytes isStderr limit := by
  constructor
  · intro hkeeps body hplain hdecode hlimit
    have happend := appendTerminalBuffer_payload bytes hplain hdecode hlimit
    obtain ⟨encoded, hpayload, hroom⟩ := decodeTerminalBuffer_room hdecode
    have hkept := hkeeps.1 (by rw [appendInPlace, happend])
    obtain ⟨body', hdecode', hafter⟩ := hkept
    rw [hdecode] at hdecode'
    cases hdecode'
    rw [appendInPlace, happend] at hafter
    have hmoved : ((packet.payload.drop (1 + (encodeVarint body.length).length)).take body.length).length =
        body.length := by
      rw [hpayload, Nat.add_comm 1, drop_succ_cons, length_take, length_drop]
      omega
    rw [decodeTerminalBuffer_of_length (by rw [length_append, hmoved])] at hafter
    split at hafter
    next hlt =>
      obtain ⟨heq, -⟩ := Prod.mk.inj (Option.some.inj hafter)
      exact ⟨append_cancel_right heq, hlt⟩
    · cases hafter
  · intro hplace
    unfold AppendKeeps appendInPlace
    cases happend : appendTerminalBuffer packet bytes isStderr limit with
    | none => exact ⟨nofun, fun _ => rfl⟩
    | some merged =>
      obtain ⟨hplain, body, hdecode, hlimit⟩ := of_appendTerminalBuffer happend
      obtain ⟨hstart, hlt⟩ := hplace body hplain hdecode hlimit
      rw [appendTerminalBuffer_payload bytes hplain hdecode hlimit, hstart] at happend
      cases happend
      refine ⟨fun _ => ⟨body, hdecode, ?_⟩, nofun⟩
      rw [decodeTerminalBuffer_of_length length_append, if_pos hlt]

/-- The length of `ab` in two bytes where one would do: the packet that is appended to loses a byte of its buffer and
gets a zero. -/
theorem append_moves_long_length :
    decodeTerminalBuffer [0x0a, 0x82, 0x00, 97, 98] = some ([97, 98], false) ∧
      appendInPlace (.new terminalBuffer [0x0a, 0x82, 0x00, 97, 98]) [99] false 16384 =
        (true, .new terminalBuffer [0x0a, 3, 0, 97, 99]) ∧
      decodeTerminalBuffer [0x0a, 3, 0, 97, 99] = some ([0, 97, 99], false) ∧
      ¬ AppendKeeps (.new terminalBuffer [0x0a, 0x82, 0x00, 97, 98]) [99] false 16384 := by
  refine ⟨by decide, by decide, by decide, fun h => ?_⟩
  obtain ⟨body, hbody, hafter⟩ := h.1 (by decide)
  have hread : decodeTerminalBuffer [0x0a, 0x82, 0x00, 97, 98] = some ([97, 98], false) := by decide
  obtain ⟨rfl, -⟩ := Prod.mk.inj (Option.some.inj (hbody.symm.trans hread))
  exact absurd hafter (by decide)

end EternalTerminal
