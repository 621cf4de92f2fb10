import EternalTerminal.Core.Packet

/-!
# Core — the backed reader

`BackedReader`: reassembles frames from the bytes it is given, decrypts them, and answers the
packets queued by a reconnect before live ones.  The bytes not yet read as frames are
`partialBytes` from `offset` to `filled`; the space behind `filled` is what the next read may
fill.

`Vec::capacity` is the allocator's: `prepareSocketRead`, the one place that looks at it, takes it
as an argument.
-/

namespace EternalTerminal
open Bytes

/-- What a pop answers. -/
inductive ReadItem where
  | packet (packet : Packet)
  | needMore
  deriving DecidableEq

/-- Why a frame is refused. -/
inductive ReadError where
  | frame (error : FrameError)
  | packet (error : PacketError)
  | crypto (error : DecryptError)
  | unencrypted
  deriving DecidableEq

/-- A packet, more bytes needed, or an error. -/
abbrev PopResult := Except ReadError ReadItem

def minSocketRead : Nat := 16 * 1024
def maxSocketReadDefault : Nat := 256 * 1024

/-- `backed_reader.rs`: the buffer, the replayed packets and the sequence read so far. -/
structure BackedReader where
  crypto : CryptoHandler
  partialBytes : Bytes
  offset : Nat
  filled : Nat
  replay : List Packet
  sequence : Int
  dataSequence : Int
  connected : Bool
  readHint : Nat
  readRequested : Nat
  lastFrameLen : Nat
  maxSocketRead : Nat

namespace BackedReader

def new (crypto : CryptoHandler) (connected : Bool) : BackedReader where
  crypto := crypto
  partialBytes := []
  offset := 0
  filled := 0
  replay := []
  sequence := 0
  dataSequence := 0
  connected := connected
  readHint := minSocketRead
  readRequested := 0
  lastFrameLen := 0
  maxSocketRead := maxSocketReadDefault

def withMaxSocketRead (r : BackedReader) (bytes : Nat) : BackedReader :=
  { r with maxSocketRead := max bytes minSocketRead }

/-- The bytes received and not yet read as frames. -/
def available (r : BackedReader) : Bytes := slice r.offset r.filled r.partialBytes

/-- Make room for `minSpace` bytes behind `filled`: the offered slice is the rest of
`partialBytes` from there. -/
def prepareReadSlice (r : BackedReader) (minSpace : Nat) : BackedReader :=
  let r :=
    if r.offset = r.filled then { r with offset := 0, filled := 0 }
    else if 0 < r.offset ∧ (r.partialBytes.length - r.filled < minSpace ∨ 64 * 1024 ≤ r.offset ∨
        r.filled - r.offset ≤ 16 * 1024) then
      { r with
        partialBytes := overwrite 0 (slice r.offset r.filled r.partialBytes) r.partialBytes
        offset := 0
        filled := r.filled - r.offset }
    else r
  let required := r.filled + minSpace
  if r.partialBytes.length < required then
    { r with
      partialBytes := r.partialBytes ++ List.replicate (required - r.partialBytes.length) 0 }
  else r

def commitRead (r : BackedReader) (count : Nat) : BackedReader :=
  { r with filled := r.filled + count }

/-- Bytes stored at the front of the offered slice. -/
def fillSlice (r : BackedReader) (bytes : Bytes) : BackedReader :=
  { r with partialBytes := overwrite r.filled bytes r.partialBytes }

def feed (r : BackedReader) (bytes : Bytes) : BackedReader :=
  if bytes.isEmpty then r
  else ((r.prepareReadSlice bytes.length).fillSlice bytes).commitRead bytes.length

def alignedReadLen (r : BackedReader) (limit : Nat) : Nat :=
  let frame := r.lastFrameLen
  if frame < minSocketRead / 4 then limit
  else
    let pending := r.available
    let rest : Option Nat :=
      if pending.length = 0 then some 0
      else if pending.length ≤ 3 then none
      else match parseBeU32Len pending with
        | .ok len => some (4 + len - pending.length)
        | .error _ => none
    match rest with
    | none => limit
    | some rest =>
      if limit ≤ rest then rest
      else
        let whole := (limit - rest) / frame
        if rest = 0 ∧ whole = 0 then limit else rest + whole * frame

/-- A drained buffer that grew for a burst is released. -/
def releaseDrained (r : BackedReader) (capacity : Nat) : BackedReader :=
  if r.offset = r.filled ∧ r.readHint = minSocketRead ∧ 4 * minSocketRead < capacity then
    { r with partialBytes := [], offset := 0, filled := 0 }
  else r

/-- The offered slice is the first `readRequested` bytes behind `filled`. -/
def prepareSocketRead (r : BackedReader) (capacity : Nat) : BackedReader :=
  let r := r.releaseDrained capacity
  let size := r.alignedReadLen r.readHint
  { r with readRequested := size }.prepareReadSlice size

def commitSocketRead (r : BackedReader) (count : Nat) : BackedReader :=
  let r := r.commitRead count
  if r.readRequested ≤ count then { r with readHint := min (r.readHint * 4) r.maxSocketRead }
  else if count < r.readHint / 4 then { r with readHint := max (r.readHint / 2) minSocketRead }
  else r

def hasBufferedData (r : BackedReader) : Bool :=
  if !r.connected then false
  else if !r.replay.isEmpty then true
  else
    let available := r.available
    if available.length < 4 then false
    else match parseBeU32Len available with
      | .ok len => decide (len < headerLen) || decide (4 + len ≤ available.length)
      | .error _ => true

/-- Open the body of a frame. -/
def decodePacket (S : Sodium) (crypto : CryptoHandler) (serialized : Bytes) :
    Except ReadError Packet × CryptoHandler :=
  match serialized with
  | flag :: header :: ciphertext =>
    if flag = 0 then (.error .unencrypted, crypto)
    else match crypto.decrypt S ciphertext with
      | (.ok plaintext, crypto) => (.ok (Packet.raw false header plaintext), crypto)
      | (.error e, crypto) => (.error (.crypto e), crypto)
  | _ => (.error (.packet .short), crypto)

def noteData (r : BackedReader) (packet : Packet) : BackedReader :=
  if packet.header ≠ keepAlive then { r with dataSequence := r.sequence } else r

/-- A buffer read to its end starts over at its front. -/
def restartDrained (r : BackedReader) : BackedReader :=
  if r.offset = r.filled then { r with offset := 0, filled := 0 } else r

/-- Consume a frame of `len` bytes behind its length field; it is consumed even when it does not
decode. -/
def takeFrame (S : Sodium) (r : BackedReader) (len : Nat) : PopResult × BackedReader :=
  let start := r.offset + 4
  let «end» := start + len
  let r := { r with offset := «end», lastFrameLen := 4 + len }
  match decodePacket S r.crypto (slice start «end» r.partialBytes) with
  | (.error e, crypto) => (.error e, { r with crypto := crypto }.restartDrained)
  | (.ok packet, crypto) =>
    let r := { r with crypto := crypto }.restartDrained
    (.ok (.packet packet), { r with sequence := r.sequence + 1 }.noteData packet)

/-- Pop a frame of the buffer. -/
def popLive (S : Sodium) (r : BackedReader) : PopResult × BackedReader :=
  if !r.connected then (.ok .needMore, r)
  else
    let available := r.available
    if available.length < 4 then (.ok .needMore, r)
    else match parseBeU32Len available with
      | .error e => (.error (.frame e), r)
      | .ok len =>
        if len < headerLen then (.error (.frame .tooSmall), r)
        else if available.length < 4 + len then (.ok .needMore, r)
        else r.takeFrame S len

/-- Pop, the replayed packets first. -/
def pop (S : Sodium) (r : BackedReader) : PopResult × BackedReader :=
  if !r.connected then (.ok .needMore, r)
  else match r.replay with
    | packet :: replay => (.ok (.packet packet), { r with replay := replay })
    | [] => r.popLive S

/-- Zero the sequence history and rekey; unchanged when the rekey fails. -/
def reset (S : Sodium) (r : BackedReader) (salt : Bytes) : Except ProofError BackedReader := do
  let crypto ← r.crypto.rekey S salt
  return { r with
    crypto := crypto
    partialBytes := []
    offset := 0
    filled := 0
    replay := []
    sequence := 0
    dataSequence := 0
    connected := false }

/-- Decode catchup packets one after the other, from a copy of the handler. -/
def decodeCatchup (S : Sodium) (crypto : CryptoHandler) :
    List Bytes → Except ReadError (List Packet × CryptoHandler)
  | [] => .ok ([], crypto)
  | serialized :: catchup =>
    match decodePacket S crypto serialized with
    | (.error e, _) => .error e
    | (.ok packet, crypto) => do
        let (packets, crypto) ← decodeCatchup S crypto catchup
        return (packet :: packets, crypto)

/-- Replay a catchup, and start over on a new transport. -/
def revive (S : Sodium) (r : BackedReader) (catchup : List Bytes) : Except ReadError BackedReader := do
  let (decoded, crypto) ← decodeCatchup S r.crypto catchup
  let carriesData := decoded.any fun packet => packet.header != keepAlive
  let sequence := r.sequence + catchup.length
  return { r with
    partialBytes := []
    offset := 0
    filled := 0
    crypto := crypto
    replay := r.replay ++ decoded
    sequence := sequence
    dataSequence := if carriesData then sequence else r.dataSequence
    connected := true }

/-- A packet is replayed behind the others. -/
def unread (r : BackedReader) (packet : Packet) : BackedReader :=
  { r with replay := r.replay ++ [packet] }

def invalidate (r : BackedReader) : BackedReader :=
  { r with partialBytes := [], offset := 0, filled := 0, connected := false }

end BackedReader

end EternalTerminal
