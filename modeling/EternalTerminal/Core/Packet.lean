import EternalTerminal.Core.Crypto

/-!
# Core — framing and packets

An encrypted stream is a sequence of frames: a 4-byte big-endian length and a packet.  A packet is
an encrypted flag, a header byte and a payload.
-/

namespace EternalTerminal
open List

def maxProtoLen : Nat := 128 * 1024 * 1024
def headerLen : Nat := 2

/-- Why a length is refused. -/
inductive FrameError where
  | short
  | negative
  | tooLarge
  | tooSmall
  deriving DecidableEq

def parseBeU32Len (buf : Bytes) : Except FrameError Nat :=
  if buf.length < 4 then .error .short
  else
    let len := Bytes.beValue (buf.take 4)
    if maxProtoLen < len then .error .tooLarge else .ok len

/-- `packet.rs`: a packet before it is framed. -/
structure Packet where
  encrypted : Bool
  header : UInt8
  payload : Bytes
  deriving DecidableEq

namespace Packet

def new (header : UInt8) (payload : Bytes) : Packet := ⟨false, header, payload⟩

def raw (encrypted : Bool) (header : UInt8) (payload : Bytes) : Packet :=
  ⟨encrypted, header, payload⟩

def wireLen (p : Packet) : Nat := headerLen + p.payload.length

end Packet

/-- Why bytes are no packet. -/
inductive PacketError where
  | short
  deriving DecidableEq

/-- The `TerminalPacketType` numbers of the headers the session layer looks at. -/
def keepAlive : UInt8 := 0
def terminalBuffer : UInt8 := 1

/-- The length only depends on the first four bytes. -/
theorem parseBeU32Len_append {buf : Bytes} (h : 4 ≤ buf.length) (more : Bytes) :
    parseBeU32Len (buf ++ more) = parseBeU32Len buf := by
  have hlen : ¬ (buf ++ more).length < 4 := by rw [length_append]; omega
  rw [parseBeU32Len, parseBeU32Len, if_neg hlen, if_neg (Nat.not_lt.mpr h), take_append_of_le_length h]

/-- A length field in front of anything is read back, reduced as the 32-bit cast does. -/
theorem parseBeU32Len_beBytes (n : Nat) (rest : Bytes) :
    parseBeU32Len (Bytes.beBytes 4 n ++ rest) =
      if maxProtoLen < n % 2 ^ 32 then .error .tooLarge else .ok (n % 2 ^ 32) := by
  have hlen : ¬ (Bytes.beBytes 4 n ++ rest).length < 4 := by
    rw [length_append, Bytes.length_beBytes]; omega
  rw [parseBeU32Len, if_neg hlen, take_append_of_le_length (by rw [Bytes.length_beBytes]),
    take_of_length_le (by rw [Bytes.length_beBytes]), Bytes.beValue_beBytes]
  rfl

end EternalTerminal
