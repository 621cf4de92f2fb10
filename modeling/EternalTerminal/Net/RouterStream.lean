import EternalTerminal.Lib.Reads
import EternalTerminal.Net.Catchup

/-!
# Net — the router stream

What `etserver` writes to a local `etterminal`: packets behind a native `i64` length, or upstream's messages, a
type byte followed by a length and a protobuf.  The reader is called whenever the socket has something, and keeps
a message it has only part of.  Its payload buffer grows as bytes arrive, by one step at most, whatever length was
announced.

Main result: `router_stream_yields`.
-/

namespace EternalTerminal
open Bytes Machine Reads List

def maxLocalPacketLen : Nat := 128 * 1024 * 1024
def payloadReadStep : Nat := 64 * 1024

def terminalInfo : UInt8 := 2
def terminalClose : UInt8 := 11

/-- The framing a terminal asked for. -/
inductive RouterFraming where
  | packets
  | upstream
  deriving DecidableEq

/-- Why a router stream is given up. -/
inductive LocalPacketError where
  | io (kind : ErrorKind)
  | truncatedPrefix
  | truncatedPayload
  | negativeLength
  | frameTooLarge (length : Int) (limit : Nat)
  | malformedPacket (error : PacketError)
  | trailingData
  | alreadyComplete
  | unknownRouterMessage (header : UInt8)
  deriving DecidableEq

/-! ### The writer -/

/-- How the messages of a type are framed. -/
inductive UpstreamMessage where
  /-- `[type][i64 length][protobuf]`. -/
  | proto
  /-- `[type]`. -/
  | close
  deriving DecidableEq

def upstreamRouterMessage (header : UInt8) : Option UpstreamMessage :=
  if header = terminalBuffer ∨ header = terminalInfo then some .proto
  else if header = terminalClose then some .close
  else none

def packetTooLarge : ErrorKind × String :=
  (.invalidInput, s!"local packet exceeds {maxLocalPacketLen} bytes")

/-- `RouterHead::new`: the bytes that precede a message's payload. -/
def routerHead (header : UInt8) (payloadLen : Nat) (framing : RouterFraming) : Except (ErrorKind × String) Bytes :=
  let maxPayloadLen := match framing with
    | .packets => maxLocalPacketLen - headerLen
    | .upstream => maxLocalPacketLen
  if maxPayloadLen < payloadLen then .error packetTooLarge
  else match framing with
    | .packets =>
      match i64OfUsize (headerLen + payloadLen) with
      | some length => .ok (leBytes 8 length.toNat ++ [0, header])
      | none => .error packetTooLarge
    | .upstream =>
      match upstreamRouterMessage header, payloadLen with
      | some .close, 0 => .ok [header]
      | some .proto, _ =>
        match i64OfUsize payloadLen with
        | some length => .ok (header :: leBytes 8 length.toNat)
        | none => .error packetTooLarge
      | _, _ =>
        .error (.invalidInput, s!"the upstream router stream cannot carry packet type {header}")

/-- What `write_router_message` puts on the stream. -/
def routerMessage (framing : RouterFraming) (packet : Packet) : Except (ErrorKind × String) Bytes :=
  (routerHead packet.header packet.payload.length framing).map (· ++ packet.payload)

/-! ### The readers -/

def parseLength (lengthBytes : Bytes) (limit : Nat) : Except LocalPacketError Nat :=
  let length := Int.bmod (leValue lengthBytes) (2 ^ 64)
  if length < 0 then .error .negativeLength
  else match (usizeOfI64 length).filter (· ≤ limit) with
    | some length => .ok length
    | none => .error (.frameTooLarge length limit)

/-- The payload of both readers: its first `filled` bytes have arrived. -/
structure PayloadBuffer where
  payload : Bytes
  filled : Nat

namespace PayloadBuffer

def empty : PayloadBuffer := ⟨[], 0⟩

/-- Room for the next read, once the initialised part is full. -/
def grow (b : PayloadBuffer) (bodyLen : Nat) : PayloadBuffer :=
  if b.payload.length = b.filled then
    let len := min bodyLen (b.filled + payloadReadStep)
    { b with payload := b.payload.take len ++ List.replicate (len - b.payload.length) 0 }
  else b

/-- The loop that reads a payload of `bodyLen` bytes. -/
def intake (bodyLen : Nat) : Intake PayloadBuffer LocalPacketError where
  wants b := decide (b.filled < bodyLen)
  grow b := b.grow bodyLen
  room b := b.payload.length - b.filled
  store b bytes := (none, ⟨overwrite b.filled bytes b.payload, b.filled + bytes.length⟩)

end PayloadBuffer

/-- What has arrived of a packet. -/
structure LocalPacketDecoder extends PayloadBuffer where
  maxPacketLen : Nat
  /-- The part of the length prefix that has arrived. -/
  lengthBytes : Bytes
  expected : Option Nat
  /-- The part of the packet's header that has arrived. -/
  header : Bytes
  complete : Bool

namespace LocalPacketDecoder

def withLimit (maxPacketLen : Nat) : LocalPacketDecoder where
  toPayloadBuffer := .empty
  maxPacketLen := min maxPacketLen maxLocalPacketLen
  lengthBytes := []
  expected := none
  header := []
  complete := false

def new : LocalPacketDecoder := withLimit maxLocalPacketLen

def lengthIntake : Intake LocalPacketDecoder LocalPacketError where
  wants d := d.expected.isNone
  grow d := d
  room d := 8 - d.lengthBytes.length
  store d bytes :=
    let d := { d with lengthBytes := d.lengthBytes ++ bytes }
    if d.lengthBytes.length = 8 then
      Intake.parsed (fun expected => { d with expected := some expected }) d
        (parseLength d.lengthBytes d.maxPacketLen)
    else (none, d)

def headerIntake (target : Nat) : Intake LocalPacketDecoder LocalPacketError where
  wants d := decide (d.header.length < target)
  grow d := d
  room d := target - d.header.length
  store d bytes := (none, { d with header := d.header ++ bytes })

/-- The packet, once all of it is there. -/
def packet (d : LocalPacketDecoder) : Packet := .raw (d.header.getD 0 0 != 0) (d.header.getD 1 0) d.payload

/-- The rest of a call whose packet has `expected` bytes and whose header is there. -/
def readBody (d : LocalPacketDecoder) (expected : Nat) (src : Source) :
    Except LocalPacketError (Option Packet) × LocalPacketDecoder × Source :=
  if expected < headerLen then (.error (.malformedPacket .short), { d with complete := true }, src)
  else
    Intake.andThen (fun buffer => { d with toPayloadBuffer := buffer })
      ((PayloadBuffer.intake (expected - headerLen)).run d.toPayloadBuffer src) (.io .unexpectedEof) (.io .other)
      fun d src => (.ok (some d.packet), { d with complete := true, payload := [] }, src)

def readFrom (d : LocalPacketDecoder) (src : Source) :
    Except LocalPacketError (Option Packet) × LocalPacketDecoder × Source :=
  if d.complete then (.error .alreadyComplete, d, src)
  else
    Intake.andThen id (lengthIntake.run d src) (.io .unexpectedEof) (.io .other) fun d src =>
      match d.expected with
      | none => (.ok none, d, src)
      | some expected =>
        Intake.andThen id ((headerIntake (min expected headerLen)).run d src) (.io .unexpectedEof) (.io .other)
          fun d src => d.readBody expected src

/-- How many bytes the part that is read now still takes. -/
def requiredBytes (d : LocalPacketDecoder) : Nat :=
  match d.expected with
  | none => 8 - d.lengthBytes.length
  | some expected => expected - (d.header.length + d.filled)

/-- The end of `feed`: input that the packet has no place for is refused. -/
def fed (d : LocalPacketDecoder) (rest : Bytes) : Except LocalPacketError (Option Packet) × LocalPacketDecoder :=
  if rest = [] then (.ok none, d) else (.error .trailingData, d)

/-- The part of `feed` that takes the payload. -/
def feedBody (d : LocalPacketDecoder) (expected : Nat) (input : Bytes) :
    Except LocalPacketError (Option Packet) × LocalPacketDecoder :=
  let count := min (expected - headerLen - d.filled) input.length
  let chunk := input.take count
  -- `readFrom` may already have made room past `filled`
  let room := min (d.payload.length - d.filled) count
  let d := { d with
    payload := overwrite d.filled (chunk.take room) d.payload ++ chunk.drop room
    filled := d.filled + count }
  if d.header.length + d.filled = expected then
    if input.drop count ≠ [] then (.error .trailingData, d)
    else if expected < headerLen then (.error (.malformedPacket .short), { d with complete := true })
    else (.ok (some d.packet), { d with complete := true, payload := [] })
  else d.fed (input.drop count)

/-- The part of `feed` once the length of the packet is known. -/
def feedPacket (d : LocalPacketDecoder) (expected : Nat) (input : Bytes) :
    Except LocalPacketError (Option Packet) × LocalPacketDecoder :=
  let target := min expected headerLen
  let count := min (target - d.header.length) input.length
  let d := { d with header := d.header ++ input.take count }
  if d.header.length = target then d.feedBody expected (input.drop count) else d.fed (input.drop count)

def feed (d : LocalPacketDecoder) (input : Bytes) : Except LocalPacketError (Option Packet) × LocalPacketDecoder :=
  if d.complete then (.error .alreadyComplete, d)
  else
    match d.expected with
    | some expected => d.feedPacket expected input
    | none =>
      let count := min (8 - d.lengthBytes.length) input.length
      let d := { d with lengthBytes := d.lengthBytes ++ input.take count }
      if d.lengthBytes.length = 8 then
        match parseLength d.lengthBytes d.maxPacketLen with
        | .ok expected => { d with expected := some expected }.feedPacket expected (input.drop count)
        | .error error => (.error error, d)
      else d.fed (input.drop count)

def finish (d : LocalPacketDecoder) : Except LocalPacketError Unit :=
  if d.complete then .ok ()
  else if d.lengthBytes.length < 8 then .error .truncatedPrefix
  else .error .truncatedPayload

end LocalPacketDecoder

/-- What has arrived of a message. -/
structure UpstreamRouterDecoder extends PayloadBuffer where
  header : Option UInt8
  /-- The part of the length that has arrived. -/
  length : Bytes
  bodyLen : Option Nat

namespace UpstreamRouterDecoder

def default : UpstreamRouterDecoder where
  toPayloadBuffer := .empty
  header := none
  length := []
  bodyLen := none

def lengthIntake : Intake UpstreamRouterDecoder LocalPacketError where
  wants d := d.bodyLen.isNone
  grow d := d
  room d := 8 - d.length.length
  store d bytes :=
    let d := { d with length := d.length ++ bytes }
    if d.length.length = 8 then
      Intake.parsed (fun bodyLen => { d with bodyLen := some bodyLen }) d (parseLength d.length maxLocalPacketLen)
    else (none, d)

/-- The rest of a call once the length is known. -/
def readPayload (d : UpstreamRouterDecoder) (header : UInt8) (bodyLen : Nat) (src : Source) :
    Except LocalPacketError (Option Packet) × UpstreamRouterDecoder × Source :=
  Intake.andThen (fun buffer => { d with toPayloadBuffer := buffer })
    ((PayloadBuffer.intake bodyLen).run d.toPayloadBuffer src) (.io .unexpectedEof) (.io .other)
    fun d src => (.ok (some (.new header d.payload)), default, src)

/-- The rest of a call once the type of the message is known. -/
def readProto (d : UpstreamRouterDecoder) (header : UInt8) (src : Source) :
    Except LocalPacketError (Option Packet) × UpstreamRouterDecoder × Source :=
  Intake.andThen id (lengthIntake.run d src) (.io .unexpectedEof) (.io .other) fun d src =>
    match d.bodyLen with
    | none => (.ok none, d, src)
    | some bodyLen => d.readPayload header bodyLen src

def readFrom (d : UpstreamRouterDecoder) (src : Source) :
    Except LocalPacketError (Option Packet) × UpstreamRouterDecoder × Source :=
  match d.header with
  | some header => d.readProto header src
  | none =>
    match readReady 1 src with
    | (.got bytes, src) =>
      let byte := bytes.headD 0
      match upstreamRouterMessage byte with
      | some .close => (.ok (some (.new byte [])), d, src)
      | some .proto => { d with header := some byte }.readProto byte src
      | none => (.error (.unknownRouterMessage byte), d, src)
    | (.blocked, src) => (.ok none, d, src)
    | (.ended, src) => (.error (.io .unexpectedEof), d, src)
    | (.failed, src) => (.error (.io .other), d, src)

end UpstreamRouterDecoder

/-- The decoder of either framing. -/
inductive RouterStreamDecoder where
  | packets (decoder : LocalPacketDecoder)
  | upstream (decoder : UpstreamRouterDecoder)

namespace RouterStreamDecoder

def new : RouterFraming → RouterStreamDecoder
  | .packets => .packets .new
  | .upstream => .upstream .default

def readFrom (d : RouterStreamDecoder) (src : Source) :
    Except LocalPacketError (Option Packet) × RouterStreamDecoder × Source :=
  match d with
  | .packets decoder =>
    match decoder.readFrom src with
    | (.ok (some packet), _, src) => (.ok (some packet), .packets .new, src)
    | (result, decoder, src) => (result, .packets decoder, src)
  | .upstream decoder =>
    let (result, decoder, src) := decoder.readFrom src
    (result, .upstream decoder, src)

end RouterStreamDecoder

/-! ### The length and the payload -/

variable {n limit : Nat} {bytes : Bytes} {framing : RouterFraming}

theorem parseLength_of_value (hval : leValue bytes = n) (hlim : n ≤ limit)
    (hmax : n < 2 ^ 63) : parseLength bytes limit = .ok n := by
  have hsigned : Int.bmod (leValue bytes : Int) (2 ^ 64) = n := by
    rw [hval, Int.bmod_def]
    split
    · omega
    · omega
  have hlen : (usizeOfI64 n).filter (· ≤ limit) = some n := by
    rw [usizeOfI64, if_pos (Int.natCast_nonneg n)]
    simp [Option.filter, hlim]
  unfold parseLength
  rw [hsigned]
  rw [if_neg (Int.not_lt.mpr (Int.natCast_nonneg n)), hlen]

theorem parseLength_leBytes (hlim : n ≤ limit) (hmax : n < 2 ^ 63) :
    parseLength (leBytes 8 n) limit = .ok n := by
  have hlt : n < 256 ^ 8 := hmax.trans (by norm_num)
  have hval := leValue_leBytes 8 n
  rw [Nat.mod_eq_of_lt hlt] at hval
  exact parseLength_of_value hval hlim hmax

namespace PayloadBuffer

/-- The bytes `got` have arrived, of at most `bodyLen`. -/
structure Arrived (bodyLen : Nat) (b : PayloadBuffer) (got : Bytes) : Prop where
  filled : b.filled = got.length
  got : b.payload.take b.filled = got
  initialised : b.filled ≤ b.payload.length
  bounded : b.payload.length ≤ bodyLen

theorem Arrived.empty (bodyLen : Nat) : Arrived bodyLen .empty [] := ⟨rfl, rfl, le_rfl, Nat.zero_le _⟩

/-- A buffer that is full is the payload. -/
theorem Arrived.payload_eq {b : PayloadBuffer} {body : Bytes} (h : Arrived body.length b body) :
    b.payload = body := by
  have hlen : b.payload.length ≤ b.filled := by
    rw [h.filled]
    exact h.bounded
  rw [← h.got, take_of_length_le hlen]

theorem Arrived.grow {bodyLen : Nat} {b : PayloadBuffer} {got : Bytes} (h : Arrived bodyLen b got)
    (hlt : got.length < bodyLen) :
    Arrived bodyLen (b.grow bodyLen) got ∧ 0 < (b.grow bodyLen).payload.length - (b.grow bodyLen).filled := by
  have hfil := h.filled
  have hinitialised := h.initialised
  unfold PayloadBuffer.grow
  split
  next hfull =>
    have hstep : 0 < payloadReadStep := by decide
    have hle : b.payload.length ≤ min bodyLen (b.filled + payloadReadStep) := by omega
    have hlen : (b.payload.take (min bodyLen (b.filled + payloadReadStep)) ++
        List.replicate (min bodyLen (b.filled + payloadReadStep) - b.payload.length) 0).length =
          min bodyLen (b.filled + payloadReadStep) := by
      rw [length_append, length_take, length_replicate]
      omega
    refine ⟨⟨hfil, ?_, ?_, ?_⟩, ?_⟩
    · dsimp only
      rw [take_of_length_le hle, take_append_of_le_length hinitialised]
      exact h.got
    · dsimp only
      omega
    · rw [hlen]
      omega
    · dsimp only
      omega
  · exact ⟨h, by omega⟩

/-- The loop fills the buffer with the payload. -/
theorem intake_after (body : Bytes) : (intake body.length).After body (Arrived body.length) where
  wants_iff := fun {b got} h => by simp [intake, h.filled]
  grow := fun {b got} h hlt => by
    obtain ⟨hgr, hroom⟩ := h.grow hlt
    refine ⟨hgr, hroom, ?_⟩
    have hfil := hgr.filled
    have hbnd := hgr.bounded
    simp only [intake]
    omega
  store := fun {b got bytes} h _ hne hlen => by
    have hle : b.filled + bytes.length ≤ b.payload.length := by
      have hinitialised := h.initialised
      simp only [intake] at hlen
      omega
    refine ⟨_, rfl, ⟨?_, ?_, ?_, ?_⟩⟩
    · rw [length_append, ← h.filled]
    · have hslice := slice_overwrite (Nat.zero_le b.filled) hle
      rw [slice, slice, drop_zero, drop_zero, h.got] at hslice
      exact hslice
    · rw [length_overwrite hle]
      exact hle
    · rw [length_overwrite hle]
      exact h.bounded

end PayloadBuffer

/-! ### Packets -/

namespace LocalPacketDecoder
variable {n : Nat} {header : UInt8} {payload more : Bytes} {src : Source} {waits : Nat}

/-- The decoder with part of the length. -/
def inLength (got : Bytes) : LocalPacketDecoder := { new with lengthBytes := got }

/-- The decoder with part of the header of a packet of `n` bytes. -/
def inHeader (n : Nat) (got : Bytes) : LocalPacketDecoder :=
  { new with lengthBytes := leBytes 8 n, expected := some n, header := got }

/-- The decoder with part of the payload. -/
def inBody (n : Nat) (header : UInt8) (b : PayloadBuffer) : LocalPacketDecoder :=
  { inHeader n [0, header] with toPayloadBuffer := b }

/-- The decoder has got part of the packet. -/
inductive Within (header : UInt8) (payload : Bytes) : LocalPacketDecoder → Bytes → Prop where
  | length {got : Bytes} (h : got.length < 8) : Within header payload (inLength got) got
  | header {got : Bytes} (h : got.length < headerLen) :
      Within header payload (inHeader (headerLen + payload.length) got)
        (leBytes 8 (headerLen + payload.length) ++ got)
  | body {b : PayloadBuffer} {got : Bytes} (harrived : b.Arrived payload.length got)
      (h : got.length < payload.length) :
      Within header payload (inBody (headerLen + payload.length) header b)
        (leBytes 8 (headerLen + payload.length) ++ ([0, header] ++ got))

theorem inLength_maxPacketLen (got : Bytes) : (inLength got).maxPacketLen = maxLocalPacketLen := by
  simp only [inLength, new, withLimit, Nat.min_self]

theorem lengthIntake_after (hn : n ≤ maxLocalPacketLen) :
    lengthIntake.After (leBytes 8 n) fun d got =>
      (got.length < (leBytes 8 n).length ∧ d = inLength got) ∨ (got = leBytes 8 n ∧ d = inHeader n []) := by
  refine Intake.after_of_collects (fun _ => rfl) rfl (fun _ => rfl) (fun got => ?_) (fun {got bytes} hfull => ?_)
    fun {got bytes} hall => ?_
  · rfl
  · rw [length_leBytes] at hfull
    simp only [lengthIntake, inLength]
    rw [if_neg hfull]
  · have hparse := parseLength_leBytes hn (hn.trans_lt (by norm_num [maxLocalPacketLen]))
    simp only [lengthIntake, inLength_maxPacketLen]
    rw [inLength, hall, if_pos (length_leBytes 8 n), hparse, Intake.parsed]
    rfl

/-- Between packets and without bytes the decoder waits. -/
theorem readFrom_idle (hfl : Flows src) (hbs : bytesOf src = []) :
    ∃ rest, new.readFrom src = (.ok none, new, rest) ∧ bytesOf rest = [] ∧ Flows rest := by
  have hfresh : ([] : Bytes).length < (leBytes 8 0).length := by decide
  obtain ⟨d, rest, hrun, hat, hrest, hfl'⟩ :=
    Intake.run_idle (lengthIntake_after (Nat.zero_le _)) (.inl ⟨hfresh, rfl⟩) (by simp [leBytes]) hfl hbs
  rcases hat with ⟨-, rfl⟩ | ⟨hnil, -⟩
  · refine ⟨rest, ?_, hrest, hfl'⟩
    have hrun' : lengthIntake.run new src = (.blocked, new, rest) := hrun
    rw [readFrom, if_neg (by simp [new, withLimit]), hrun']
    rfl
  · exact absurd hnil (by simp [leBytes])

theorem headerIntake_after (n : Nat) (goal : Bytes) :
    (headerIntake goal.length).After goal fun d got => d = inHeader n got where
  wants_iff := by
    rintro d got rfl
    simp [headerIntake, inHeader]
  grow := by
    rintro d got rfl hlt
    refine ⟨rfl, ?_, ?_⟩
    · simp only [headerIntake, inHeader]
      omega
    · simp only [headerIntake, inHeader]
      omega
  store := by
    rintro d got bytes rfl - - -
    exact ⟨_, rfl, rfl⟩

/-- The bytes of a packet. -/
def frame (header : UInt8) (payload : Bytes) : Bytes :=
  leBytes 8 (headerLen + payload.length) ++ ([0, header] ++ payload)

theorem frame_append (header : UInt8) (payload more : Bytes) :
    frame header payload ++ more = leBytes 8 (headerLen + payload.length) ++ ([0, header] ++ (payload ++ more)) := by
  simp only [frame, append_assoc]

variable {got : Bytes} {d : LocalPacketDecoder}

/-- A call that has come to the payload. -/
theorem readBody_progress {b : PayloadBuffer} (harr : b.Arrived payload.length got)
    (hle : got.length ≤ payload.length) (hfl : Flows src) (hwt : blocks src ≤ waits)
    (hbs : got ++ bytesOf src = payload ++ more) :
    Progress (fun _ => True) (Within header payload) (.new header payload) (frame header payload ++ more) more waits
      ((inBody (headerLen + payload.length) header b).readBody (headerLen + payload.length) src) := by
  rw [readBody, if_neg (Nat.not_lt.mpr (Nat.le_add_right _ _)), Nat.add_sub_cancel_left]
  refine Intake.andThen_progress (PayloadBuffer.intake_after payload) harr hle hfl hwt hbs ?_ ?_
  · intro b' got' rest hat hlt hrest
    refine ⟨_, .body hat hlt, ?_⟩
    rw [frame_append, append_assoc, append_assoc, hrest]
  · intro b' rest hat hrest hfl' hblk
    have hpkt : (inBody (headerLen + payload.length) header b').packet = .new header payload :=
      congrArg (Packet.new header) hat.payload_eq
    exact .inl ⟨{ inBody (headerLen + payload.length) header b' with complete := true, payload := [] }, rest,
      by rw [← hpkt]; rfl, trivial, hrest, hblk, hfl'⟩

/-- A call that has come to the header. -/
theorem readHeader_progress (hle : got.length ≤ headerLen) (hfl : Flows src)
    (hwt : blocks src ≤ waits) (hbs : got ++ bytesOf src = [0, header] ++ (payload ++ more)) :
    Progress (fun _ => True) (Within header payload) (.new header payload) (frame header payload ++ more) more waits
      (Intake.andThen id ((headerIntake headerLen).run (inHeader (headerLen + payload.length) got) src)
        (.io .unexpectedEof) (.io .other) fun d src => d.readBody (headerLen + payload.length) src) := by
  refine Intake.andThen_progress (headerIntake_after (headerLen + payload.length) [0, header]) rfl hle hfl hwt
    hbs ?_ ?_
  · rintro d got' rest rfl hlt hrest
    refine ⟨_, .header hlt, ?_⟩
    rw [frame_append, append_assoc, hrest]
  · rintro d rest rfl hrest hfl' hblk
    exact readBody_progress (b := .empty) (.empty payload.length) (Nat.zero_le _) hfl' hblk hrest

theorem readFrom_of_expected {expected : Nat} (hcomp : d.complete = false)
    (hexp : d.expected = some expected) (src : Source) :
    d.readFrom src =
      Intake.andThen id ((headerIntake (min expected headerLen)).run d src) (.io .unexpectedEof) (.io .other)
        fun d src => d.readBody expected src := by
  have hwants : lengthIntake.wants d = false := by simp [lengthIntake, hexp]
  rw [readFrom, hcomp, if_neg Bool.false_ne_true, Intake.run_of_not_wants hwants]
  simp only [Intake.andThen, id_eq, hexp]

/-- **A call in the middle of a packet** ends it, or waits with what it has. -/
theorem readFrom_progress (hn : headerLen + payload.length ≤ maxLocalPacketLen)
    (hin : Within header payload d got) (hfl : Flows src)
    (hbs : got ++ bytesOf src = frame header payload ++ more) :
    Progress (fun _ => True) (Within header payload) (.new header payload) (frame header payload ++ more) more
      (blocks src) (d.readFrom src) := by
  have hmin : min (headerLen + payload.length) headerLen = headerLen := Nat.min_eq_right (Nat.le_add_right _ _)
  cases hin with
  | length h =>
    rw [frame_append] at hbs
    rw [readFrom, if_neg (by simp [inLength, new, withLimit])]
    refine Intake.andThen_progress (lengthIntake_after hn) (.inl ⟨h, rfl⟩) (by rw [length_leBytes]; omega) hfl
      le_rfl hbs ?_ ?_
    · rintro d got' rest (⟨-, rfl⟩ | ⟨rfl, rfl⟩) hlt hrest
      · refine ⟨_, .length (by rwa [length_leBytes] at hlt), ?_⟩
        rw [hrest, frame_append]
      · exact absurd hlt (lt_irrefl _)
    · rintro d rest (⟨hlt, -⟩ | ⟨-, rfl⟩) hrest hfl' hblk
      · exact absurd hlt (by rw [length_leBytes]; omega)
      · have hnil : ([] : Bytes).length ≤ headerLen := Nat.zero_le _
        have hread := readHeader_progress hnil hfl' hblk hrest
        simpa only [inHeader, id_eq, hmin] using hread
  | header h =>
    rw [frame_append, append_assoc, append_cancel_left_eq] at hbs
    rw [readFrom_of_expected rfl rfl, hmin]
    exact readHeader_progress h.le hfl le_rfl hbs
  | body harr h =>
    rw [frame_append, append_assoc, append_assoc, append_cancel_left_eq, append_cancel_left_eq] at hbs
    have hwants : ∀ b, (headerIntake headerLen).wants (inBody (headerLen + payload.length) header b) = false :=
      fun _ => decide_eq_false (lt_irrefl headerLen)
    rw [readFrom_of_expected rfl rfl, hmin, Intake.run_of_not_wants (hwants _)]
    exact readBody_progress harr h.le hfl le_rfl hbs

end LocalPacketDecoder

/-! ### Upstream messages -/

namespace UpstreamRouterDecoder
variable {header : UInt8} {payload more : Bytes} {src : Source} {waits : Nat}

/-- The decoder with part of the length. -/
def inLength (header : UInt8) (got : Bytes) : UpstreamRouterDecoder :=
  { default with header := some header, length := got }

/-- The decoder with part of the payload. -/
def inBody (header : UInt8) (n : Nat) (b : PayloadBuffer) : UpstreamRouterDecoder :=
  { default with toPayloadBuffer := b, header := some header, length := leBytes 8 n, bodyLen := some n }

/-- The decoder has got part of the message. -/
inductive Within (header : UInt8) (payload : Bytes) : UpstreamRouterDecoder → Bytes → Prop where
  | type : Within header payload default []
  | length {got : Bytes} (h : got.length < 8) : Within header payload (inLength header got) (header :: got)
  | body {b : PayloadBuffer} {got : Bytes} (harrived : b.Arrived payload.length got)
      (h : got.length < payload.length) :
      Within header payload (inBody header payload.length b) (header :: (leBytes 8 payload.length ++ got))

theorem lengthIntake_after {n : Nat} (header : UInt8) (hn : n ≤ maxLocalPacketLen) :
    lengthIntake.After (leBytes 8 n) fun d got =>
      (got.length < (leBytes 8 n).length ∧ d = inLength header got) ∨
        (got = leBytes 8 n ∧ d = inBody header n .empty) := by
  refine Intake.after_of_collects (fun _ => rfl) rfl (fun _ => rfl) (fun got => ?_) (fun {got bytes} hfull => ?_)
    fun {got bytes} hall => ?_
  · rfl
  · rw [length_leBytes] at hfull
    simp only [lengthIntake, inLength]
    rw [if_neg hfull]
  · have hparse := parseLength_leBytes hn (hn.trans_lt (by norm_num [maxLocalPacketLen]))
    simp only [lengthIntake, inLength]
    rw [hall, if_pos (length_leBytes 8 n), hparse, Intake.parsed]
    rfl

/-- The bytes of a message with a protobuf. -/
def frame (header : UInt8) (payload : Bytes) : Bytes := header :: (leBytes 8 payload.length ++ payload)

theorem frame_append (header : UInt8) (payload more : Bytes) :
    frame header payload ++ more = header :: (leBytes 8 payload.length ++ (payload ++ more)) := by
  rw [frame, cons_append, append_assoc]

variable {got : Bytes} {d : UpstreamRouterDecoder}

/-- A call that has come to the payload. -/
theorem readPayload_progress {b : PayloadBuffer} (harr : b.Arrived payload.length got)
    (hle : got.length ≤ payload.length) (hfl : Flows src) (hwt : blocks src ≤ waits)
    (hbs : got ++ bytesOf src = payload ++ more) :
    Progress (· = default) (Within header payload) (.new header payload) (frame header payload ++ more) more waits
      ((inBody header payload.length b).readPayload header payload.length src) := by
  refine Intake.andThen_progress (PayloadBuffer.intake_after payload) harr hle hfl hwt hbs ?_ ?_
  · intro b' got' rest hat hlt hrest
    refine ⟨_, .body hat hlt, ?_⟩
    rw [frame_append, cons_append, append_assoc, hrest]
  · intro b' rest hat hrest hfl' hblk
    refine .inl ⟨default, rest, ?_, rfl, hrest, hblk, hfl'⟩
    rw [← hat.payload_eq]

theorem readProto_of_bodyLen {bodyLen : Nat} (h : d.bodyLen = some bodyLen)
    (header : UInt8) (src : Source) : d.readProto header src = d.readPayload header bodyLen src := by
  have hwants : lengthIntake.wants d = false := by simp [lengthIntake, h]
  rw [readProto, Intake.run_of_not_wants hwants]
  simp only [Intake.andThen, id_eq, h]

/-- A call that has come to the length. -/
theorem readProto_progress (hn : payload.length ≤ maxLocalPacketLen) (h : got.length < 8)
    (hfl : Flows src) (hwt : blocks src ≤ waits)
    (hbs : got ++ bytesOf src = leBytes 8 payload.length ++ (payload ++ more)) :
    Progress (· = default) (Within header payload) (.new header payload) (frame header payload ++ more) more waits
      ((inLength header got).readProto header src) := by
  refine Intake.andThen_progress (lengthIntake_after header hn) (.inl ⟨h, rfl⟩) (by rw [length_leBytes]; omega)
    hfl hwt hbs ?_ ?_
  · rintro d got' rest (⟨-, rfl⟩ | ⟨rfl, rfl⟩) hlt hrest
    · refine ⟨_, .length (by rwa [length_leBytes] at hlt), ?_⟩
      rw [frame_append, cons_append, hrest]
    · exact absurd hlt (lt_irrefl _)
  · rintro d rest (⟨hlt, -⟩ | ⟨-, rfl⟩) hrest hfl' hblk
    · exact absurd hlt (by rw [length_leBytes]; omega)
    · exact readPayload_progress (.empty payload.length) (Nat.zero_le _) hfl' hblk hrest

/-- The read of a type byte from a stream that has one. -/
theorem readReady_type (hfl : Flows src) {stream : Bytes} (hbs : bytesOf src = header :: stream) :
    (∃ rest, readReady 1 src = (.got [header], rest) ∧ bytesOf rest = stream ∧ blocks rest ≤ blocks src ∧
        Flows rest) ∨
      (∃ rest, readReady 1 src = (.blocked, rest) ∧ bytesOf rest = header :: stream ∧ blocks rest < blocks src ∧
        Flows rest) := by
  rcases readReady_spec Nat.one_pos hfl with
    ⟨bytes, rest, hread, hne, hlen, hspl, hblk, hrest⟩ | ⟨rest, hread, hsame, hrest, hblk⟩
  · rw [hbs] at hspl
    obtain ⟨b, rfl⟩ := length_eq_one_iff.mp (Nat.le_antisymm hlen (length_pos_of_ne_nil hne))
    obtain ⟨rfl, hstr⟩ := List.cons.inj hspl
    exact .inl ⟨rest, hread, hstr.symm, hblk.le, hrest⟩
  · refine .inr ⟨rest, hread, hsame.trans hbs, hblk.resolve_right fun hnil => ?_, hrest⟩
    rw [← hsame, hnil] at hbs
    cases hbs

/-- **A call in the middle of a message** ends it, or waits with what it has. -/
theorem readFrom_progress (hproto : upstreamRouterMessage header = some .proto)
    (hn : payload.length ≤ maxLocalPacketLen)
    (hin : Within header payload d got) (hfl : Flows src)
    (hbs : got ++ bytesOf src = frame header payload ++ more) :
    Progress (· = default) (Within header payload) (.new header payload) (frame header payload ++ more) more
      (blocks src) (d.readFrom src) := by
  cases hin with
  | type =>
    rcases readReady_type hfl hbs with
      ⟨rest, hread, hrest, hblk, hfl'⟩ | ⟨rest, hread, hrest, hblk, hfl'⟩
    · have hnil : ([] : Bytes).length < 8 := by decide
      simp only [readFrom, default, hread, headD_cons, hproto]
      exact readProto_progress hn hnil hfl' hblk hrest
    · refine .inr ⟨default, rest, [], ?_, .type, ?_, hblk, hfl'⟩
      · simp only [readFrom, default, hread]
      · exact hrest
  | length h => exact readProto_progress hn h hfl le_rfl (List.cons.inj hbs).2
  | body harr h =>
    rw [cons_append, append_assoc] at hbs
    have hrest := append_cancel_left (List.cons.inj hbs).2
    have hread : ∀ b, (inBody header payload.length b).readFrom src =
        (inBody header payload.length b).readPayload header payload.length src :=
      fun b => readProto_of_bodyLen rfl header src
    rw [hread]
    exact readPayload_progress harr h.le hfl le_rfl hrest

/-- Between messages and without bytes the decoder waits. -/
theorem readFrom_idle (hfl : Flows src) (hbs : bytesOf src = []) :
    ∃ rest, default.readFrom src = (.ok none, default, rest) ∧ bytesOf rest = [] ∧ Flows rest := by
  rcases readReady_spec Nat.one_pos hfl with ⟨bytes, rest, -, hne, -, hspl, -⟩ | ⟨rest, hread, hsame, hrest, -⟩
  · rw [hbs] at hspl
    exact absurd (append_eq_nil_iff.mp hspl.symm).1 hne
  · refine ⟨rest, ?_, hsame.trans hbs, hrest⟩
    simp only [readFrom, default, hread]

/-- A call in front of a message that is its type. -/
theorem readFrom_close (hcl : upstreamRouterMessage header = some .close) (hfl : Flows src)
    (hbs : bytesOf src = header :: more) :
    Progress (· = default) (fun d got => d = default ∧ got = []) (.new header []) (header :: more) more (blocks src)
      (default.readFrom src) := by
  rcases readReady_type hfl hbs with
    ⟨rest, hread, hrest, hblk, hfl'⟩ | ⟨rest, hread, hrest, hblk, hfl'⟩
  · refine .inl ⟨default, rest, ?_, rfl, hrest, hblk, hfl'⟩
    simp only [readFrom, default, hread, headD_cons, hcl]
  · refine .inr ⟨default, rest, [], ?_, ⟨rfl, rfl⟩, hrest, hblk, hfl'⟩
    simp only [readFrom, default, hread]

end UpstreamRouterDecoder

/-! ### The router stream -/

theorem i64OfUsize_of_le (h : n ≤ maxLocalPacketLen) : i64OfUsize n = some (n : Int) := by
  have hmax : maxLocalPacketLen < 2 ^ 63 := by norm_num [maxLocalPacketLen]
  unfold i64OfUsize i64Max
  rw [if_pos (by omega)]

/-- What the writer puts on the stream for a message that it carries. -/
theorem routerMessage_cases {packet : Packet} (h : routerMessage framing packet = .ok bytes) :
    (framing = .packets ∧ headerLen + packet.payload.length ≤ maxLocalPacketLen ∧
        bytes = LocalPacketDecoder.frame packet.header packet.payload) ∨
      (framing = .upstream ∧ upstreamRouterMessage packet.header = some .proto ∧
        packet.payload.length ≤ maxLocalPacketLen ∧
        bytes = UpstreamRouterDecoder.frame packet.header packet.payload) ∨
      (framing = .upstream ∧ upstreamRouterMessage packet.header = some .close ∧ packet.payload = [] ∧
        bytes = [packet.header]) := by
  obtain ⟨encrypted, header, payload⟩ := packet
  unfold routerMessage routerHead at h
  cases framing with
  | packets =>
    dsimp only at h
    split at h
    · cases h
    rename_i hlen
    have hle : headerLen + payload.length ≤ maxLocalPacketLen := by
      have hmax : headerLen ≤ maxLocalPacketLen := by decide
      omega
    rw [i64OfUsize_of_le hle] at h
    obtain rfl := Except.ok.inj h
    exact .inl ⟨rfl, hle, append_assoc _ _ _⟩
  | upstream =>
    dsimp only at h
    split at h
    · cases h
    rename_i hlen
    have hle : payload.length ≤ maxLocalPacketLen := Nat.le_of_not_lt hlen
    split at h
    next hcl hzero =>
      obtain rfl := length_eq_zero_iff.mp hzero
      obtain rfl := Except.ok.inj h
      exact .inr (.inr ⟨rfl, hcl, rfl, rfl⟩)
    next hproto =>
      rw [i64OfUsize_of_le hle] at h
      obtain rfl := Except.ok.inj h
      exact .inr (.inl ⟨rfl, hproto, hle, rfl⟩)
    · cases h

namespace RouterStreamDecoder

/-- The decoder has got part of the message. -/
inductive Within (packet : Packet) : RouterFraming → RouterStreamDecoder → Bytes → Prop where
  | packets {d : LocalPacketDecoder} {got : Bytes}
      (h : LocalPacketDecoder.Within packet.header packet.payload d got) : Within packet .packets (.packets d) got
  | proto {d : UpstreamRouterDecoder} {got : Bytes} (hproto : upstreamRouterMessage packet.header = some .proto)
      (h : UpstreamRouterDecoder.Within packet.header packet.payload d got) : Within packet .upstream (.upstream d) got
  | close (hclose : upstreamRouterMessage packet.header = some .close) :
      Within packet .upstream (.upstream .default) []

/-- A plaintext packet that the writer carries. -/
def Carried (framing : RouterFraming) (packet : Packet) : Prop :=
  packet.encrypted = false ∧ ∃ bytes, routerMessage framing packet = .ok bytes

def written (framing : RouterFraming) (packet : Packet) : Bytes := (routerMessage framing packet).toOption.getD []

/-- **Each call reads on in the current message**, in either framing. -/
theorem decodes (framing : RouterFraming) :
    Decodes readFrom (Carried framing) (written framing) (· = new framing) fun packet => Within packet framing where
  start := by
    rintro ⟨_, header, payload⟩ d ⟨-, bytes, hbs⟩ rfl
    rcases routerMessage_cases hbs with ⟨rfl, -⟩ | ⟨rfl, hproto, -⟩ | ⟨rfl, hcl, -⟩
    · have hnil : ([] : Bytes).length < 8 := by decide
      exact .packets (.length hnil)
    · exact .proto hproto .type
    · exact .close hcl
  reads := by
    rintro ⟨_, header, payload⟩ d got more src ⟨rfl, bytes, hcar⟩ hin hfl hbs
    have hwr : written framing ⟨false, header, payload⟩ = bytes := by
      rw [written, hcar]
      rfl
    rw [hwr] at hbs ⊢
    rcases routerMessage_cases hcar with ⟨rfl, hn, rfl⟩ | ⟨rfl, hproto, hn, rfl⟩ | ⟨rfl, hcl, hnil, rfl⟩
    · cases hin with
      | packets h =>
        refine (LocalPacketDecoder.readFrom_progress hn h hfl hbs).lift ?_ ?_
        · intro d' rest hread _
          exact ⟨.packets .new, by simp only [readFrom, hread], rfl⟩
        · intro d' rest got' hread hin
          exact ⟨.packets d', by simp only [readFrom, hread], .packets hin⟩
    · cases hin with
      | proto _ h =>
        refine (UpstreamRouterDecoder.readFrom_progress hproto hn h hfl hbs).lift ?_ ?_
        · rintro d' rest hread rfl
          exact ⟨.upstream .default, by simp only [readFrom, hread], rfl⟩
        · intro d' rest got' hread hin
          exact ⟨.upstream d', by simp only [readFrom, hread], .proto hproto hin⟩
      | close hcl => exact nomatch hproto.symm.trans hcl
    · cases hin with
      | proto hproto => exact nomatch hcl.symm.trans hproto
      | close _ =>
        obtain rfl : payload = [] := hnil
        refine (UpstreamRouterDecoder.readFrom_close hcl hfl hbs).lift ?_ ?_
        · rintro d' rest hread rfl
          exact ⟨.upstream .default, by simp only [readFrom, hread], rfl⟩
        · rintro d' rest got' hread ⟨rfl, rfl⟩
          exact ⟨.upstream .default, by simp only [readFrom, hread], .close hcl⟩
  idle := by
    rintro d src rfl hfl hbs
    cases framing with
    | packets =>
      obtain ⟨rest, hread, hrest⟩ := LocalPacketDecoder.readFrom_idle hfl hbs
      exact ⟨.packets .new, rest, by simp only [readFrom, new, hread], rfl, hrest⟩
    | upstream =>
      obtain ⟨rest, hread, hrest⟩ := UpstreamRouterDecoder.readFrom_idle hfl hbs
      exact ⟨.upstream .default, rest, by simp only [readFrom, new, hread], rfl, hrest⟩

end RouterStreamDecoder

/-- A message as it comes back: in plaintext. -/
def Packet.plain (packet : Packet) : Packet := .new packet.header packet.payload

/-- The stream of a writer that carried every message. -/
theorem written_messages {messages : List Packet} {frames : List Bytes}
    (h : messages.mapM (routerMessage framing) = .ok frames) :
    (∀ packet ∈ messages.map Packet.plain, RouterStreamDecoder.Carried framing packet) ∧
      frames.flatten = (messages.map Packet.plain).flatMap (RouterStreamDecoder.written framing) := by
  induction messages generalizing frames with
  | nil =>
    obtain rfl := Except.ok.inj h
    exact ⟨nofun, rfl⟩
  | cons packet messages ih =>
    rw [mapM_cons] at h
    cases hpkt : routerMessage framing packet with
    | error e =>
      rw [hpkt] at h
      cases h
    | ok bytes =>
      rw [hpkt] at h
      cases hmessages : messages.mapM (routerMessage framing) with
      | error e =>
        rw [hmessages] at h
        cases h
      | ok frames' =>
        rw [hmessages] at h
        obtain rfl := Except.ok.inj h
        obtain ⟨hcar, hflat⟩ := ih hmessages
        refine ⟨forall_mem_cons.mpr ⟨⟨rfl, bytes, hpkt⟩, hcar⟩, ?_⟩
        have hwr : RouterStreamDecoder.written framing packet.plain = bytes :=
          congrArg (fun r => Except.toOption r |>.getD []) hpkt
        rw [flatten_cons, hflat, map_cons, flatMap_cons, hwr]

/-- **The router stream.**  The messages that a writer put on the stream come back from the calls of the reader in
order, however the bytes arrive and however often a read would block.  No call fails, after as many calls as there
are messages and waits all are back, and from then on every call says that more bytes are needed. -/
theorem router_stream_yields (framing : RouterFraming) {messages : List Packet} {frames : List Bytes}
    (hwritten : messages.mapM (routerMessage framing) = .ok frames) {src : Source} (hflows : Flows src)
    (hbytes : bytesOf src = frames.flatten) (n : Nat) :
    Yields (messages.map Packet.plain) (messages.length + blocks src) n
      (decoderCalls RouterStreamDecoder.readFrom n (.new framing) src) := by
  obtain ⟨hcarried, hflatten⟩ := written_messages hwritten
  have hyields := decoderCalls_spec (RouterStreamDecoder.decodes framing) hcarried n rfl hflows
    (hbytes.trans hflatten)
  rwa [length_map] at hyields

/-- A message with a protobuf, a close and another one, in pieces with waits between them. -/
def routerPieces : Source :=
  [.ready [1, 2], .wouldBlock, .ready [0, 0, 0, 0], .interrupted, .ready [0, 0, 0, 7, 8, 11, 2], .ready [1, 0, 0, 0],
    .wouldBlock, .ready [0, 0, 0, 0, 9]]

theorem router_stream_yields_pieces :
    decoderCalls RouterStreamDecoder.readFrom 6 (.new .upstream) routerPieces =
        [.ok none, .ok (some (.new 1 [7, 8])), .ok (some (.new 11 [])), .ok none, .ok (some (.new 2 [9])), .ok none] ∧
      Yields (([.new 1 [7, 8], .new 11 [], .new 2 [9]] : List Packet).map Packet.plain) (3 + blocks routerPieces) 6
        (decoderCalls RouterStreamDecoder.readFrom 6 (.new .upstream) routerPieces) := by
  have hflows : Flows routerPieces := by decide
  have hbytes : bytesOf routerPieces =
      [[1, 2, 0, 0, 0, 0, 0, 0, 0, 7, 8], [11], [2, 1, 0, 0, 0, 0, 0, 0, 0, 9]].flatten := by decide
  exact ⟨by decide +kernel, router_stream_yields .upstream (by rfl) hflows hbytes 6⟩

end EternalTerminal
