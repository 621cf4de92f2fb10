import EternalTerminal.Lib.Bytes
import EternalTerminal.Lib.History
import EternalTerminal.Lib.Machine

/-!
# Net — a forwarded socket

The I/O of one forwarded socket (`forward_poll.rs`): network data queued for the local socket, the window
the peer advertised with what is in flight under it, and the credit that is owed for data the local socket
took.  What the operating system answers to reads and writes is an argument.
-/

namespace EternalTerminal
open Machine Bytes History List

/-- The end of a forward that a socket is at. -/
inductive Role where
  | source
  | destination
  deriving DecidableEq

/-! ### Windows -/

/-- A number of bytes and of packets. -/
structure FlowWindow where
  bytes : Int
  packets : Int
  deriving DecidableEq

/-- A window, as it decodes. -/
structure PortForwardWindow where
  bytes : Option Int
  packets : Option Int
  deriving DecidableEq

def windowBytes : Int := 4 * 1024 * 1024
def windowPackets : Int := 127
def creditReturnThreshold : Int := windowBytes / 8
def packetCreditReturnThreshold : Int := windowPackets / 8
def outQueuePackets : Nat := 128
def drainedCreditBytes : Int := 16 * 1024
def maxDataPacket : Nat := 64 * 1024
/-- Bytes read from a forwarded socket per data packet. -/
def forwardReadLen : Nat := 64 * 1024 - 64

def advertisedWindow : PortForwardWindow := ⟨some windowBytes, some windowPackets⟩

def decodeWindow (window : Option PortForwardWindow) : Option FlowWindow := do
  let window ← window
  let bytes ← window.bytes.filter fun bytes => decide (0 < bytes)
  let packets ← window.packets.filter fun packets => decide (0 < packets)
  return ⟨min bytes windowBytes, min packets windowPackets⟩

def creditBatch (window cap : Int) : Int := max 1 (min (window.tdiv 8) cap)

/-! ### Replies to session binds -/

def sshAgentMaxMessageLength : Nat := 256 * 1024

/-- The replies at the front of the agent's output, as many as are still expected; `none` for a length that
cannot be a reply's. -/
def skipReplies : Nat → Bytes → Option (Nat × Bytes)
  | 0, pending => some (0, pending)
  | left + 1, pending =>
    if pending.length < 4 then some (left + 1, pending)
    else
      let length := beValue (pending.take 4)
      if length = 0 ∨ sshAgentMaxMessageLength < length then none
      else if pending.length < 4 + length then some (left + 1, pending)
      else skipReplies left (pending.drop (4 + length))

/-- Too short for the reply it starts with. -/
def IncompleteReply (pending : Bytes) : Prop :=
  pending.length < 4 ∨ pending.length < 4 + beValue (pending.take 4)

/-- A message of the agent: its length in four bytes, and as many bytes. -/
structure AgentMessage (message : Bytes) : Prop where
  head : 4 ≤ message.length
  length_eq : message.length = 4 + beValue (message.take 4)
  pos : 0 < beValue (message.take 4)
  le : beValue (message.take 4) ≤ sshAgentMaxMessageLength

/-- A length that no message has. -/
def InvalidLength (rest : Bytes) : Prop :=
  4 ≤ rest.length ∧ (beValue (rest.take 4) = 0 ∨ sshAgentMaxMessageLength < beValue (rest.take 4))

section Replies
variable {n k : Nat} {stream rest : Bytes}

theorem skipReplies_message {message : Bytes} (h : AgentMessage message) (n : Nat) (more : Bytes) :
    skipReplies (n + 1) (message ++ more) = skipReplies n more := by
  obtain ⟨hfour, hlen, hpos, hmax⟩ := h
  rw [skipReplies, take_append_of_le_length hfour, length_append, if_neg (by omega), if_neg (by omega),
    if_neg (by omega), ← hlen, drop_left]

theorem skipReplies_invalid (n : Nat) (h : InvalidLength stream) : skipReplies (n + 1) stream = none := by
  rw [skipReplies, if_neg (Nat.not_lt.mpr h.1), if_pos h.2]

/-- The stream starts with a message or with an invalid length, or nothing is taken off it yet. -/
theorem skipReplies_cases (n : Nat) (stream : Bytes) :
    (∃ message more, AgentMessage message ∧ stream = message ++ more) ∨ InvalidLength stream ∨
      (IncompleteReply stream ∧ skipReplies (n + 1) stream = some (n + 1, stream)) := by
  rw [skipReplies]
  split
  next hsh => exact .inr (.inr ⟨.inl hsh, rfl⟩)
  next hfour =>
  dsimp only
  split
  next hlen => exact .inr (.inl ⟨by omega, hlen⟩)
  next hlen =>
  split
  next hsh => exact .inr (.inr ⟨.inr hsh, rfl⟩)
  next hall =>
  have htake : (stream.take (4 + beValue (stream.take 4))).take 4 = stream.take 4 := by
    rw [take_take, Nat.min_eq_left (Nat.le_add_right _ _)]
  have hmessage : AgentMessage (stream.take (4 + beValue (stream.take 4))) := by
    constructor <;> simp only [htake, length_take_of_le (Nat.not_lt.mp hall)] <;> omega
  exact .inl ⟨_, _, hmessage, (take_append_drop ..).symm⟩

theorem skipReplies_spec (h : skipReplies n stream = some (k, rest)) :
    k ≤ n ∧ rest <:+ stream ∧ (k ≠ 0 → IncompleteReply rest) := by
  induction n generalizing stream with
  | zero =>
    cases h
    exact ⟨le_rfl, suffix_rfl, fun hk => absurd rfl hk⟩
  | succ n ih =>
    rcases skipReplies_cases n stream with ⟨message, more, hmsg, rfl⟩ | hinv | ⟨hinc, hsame⟩
    · rw [skipReplies_message hmsg] at h
      obtain ⟨hle, hsuf, hrest⟩ := ih h
      exact ⟨hle.trans (Nat.le_succ n), hsuf.trans (suffix_append _ _), hrest⟩
    · rw [skipReplies_invalid n hinv] at h
      cases h
    · cases hsame.symm.trans h
      exact ⟨le_rfl, suffix_rfl, fun _ => hinc⟩

theorem skipReplies_incomplete (h : skipReplies n stream = some (k + 1, rest)) : IncompleteReply rest :=
  (skipReplies_spec h).2.2 (Nat.succ_ne_zero k)

end Replies

/-- The replies of an ssh agent to the session binds, which are taken off its output.  What is pending is
an incomplete reply. -/
structure AgentSessionBindReplies where
  bindCount : Nat
  repliesSeen : Nat
  pending : Bytes
  seen_le : repliesSeen ≤ bindCount
  incomplete : IncompleteReply pending

namespace AgentSessionBindReplies

def new (bindCount : Nat) : AgentSessionBindReplies := ⟨bindCount, 0, [], Nat.zero_le _, .inl (by decide)⟩

/-- The bytes that follow the last bind reply; `none` when the replies cannot be told apart. -/
def consume (r : AgentSessionBindReplies) (data : Bytes) : Option (Bytes × AgentSessionBindReplies) :=
  if r.repliesSeen = r.bindCount then some (data, r)
  else match h : skipReplies (r.bindCount - r.repliesSeen) (r.pending ++ data) with
    | none => none
    | some (0, rest) => some (rest, ⟨r.bindCount, r.bindCount, [], Nat.le_refl _, .inl (by decide)⟩)
    | some (left + 1, rest) =>
      some ([], ⟨r.bindCount, r.bindCount - (left + 1), rest, Nat.sub_le _ _, skipReplies_incomplete h⟩)

/-- A reply that was incomplete ends in what was just read. -/
theorem length_skipReplies_le_data {left : Nat} {pending data rest : Bytes} (hpend : IncompleteReply pending)
    (h : skipReplies (left + 1) (pending ++ data) = some (0, rest)) : rest.length ≤ data.length := by
  rw [skipReplies] at h
  split at h
  · cases h
  rename_i hlong
  dsimp only at h
  split at h
  · cases h
  rename_i hlen
  split at h
  · cases h
  have hrest := (skipReplies_spec h).2.1.length_le
  rw [length_drop, length_append] at hrest
  rcases hpend with hsh | hsh
  · omega
  · by_cases hfour : 4 ≤ pending.length
    · rw [take_append_of_le_length hfour] at hrest
      omega
    · omega

/-- **What follows the bind replies is part of what was just read.** -/
theorem length_consume_le {r r' : AgentSessionBindReplies} {data forwarded : Bytes}
    (h : r.consume data = some (forwarded, r')) : forwarded.length ≤ data.length := by
  unfold consume at h
  split at h
  · cases h
    exact Nat.le_refl _
  rename_i hmore
  have hle := r.seen_le
  split at h
  · cases h
  next rest hskip =>
    cases h
    obtain ⟨left, hleft⟩ : ∃ left, r.bindCount - r.repliesSeen = left + 1 :=
      Nat.exists_eq_succ_of_ne_zero (by omega)
    rw [hleft] at hskip
    exact length_skipReplies_le_data r.incomplete hskip
  · cases h
    exact Nat.zero_le _

end AgentSessionBindReplies

/-! ### Sockets -/

/-- Network data for the local socket: `len` bytes of `data` from `start` on. -/
structure QueuedBuffer where
  data : Bytes
  start : Nat
  len : Nat
  fits : start + len ≤ data.length

namespace QueuedBuffer

def bytes (b : QueuedBuffer) : Bytes := (b.data.drop b.start).take b.len

@[simp] theorem length_bytes (b : QueuedBuffer) : b.bytes.length = b.len := by
  have := b.fits
  rw [bytes, length_take, length_drop]
  omega

def size (b : QueuedBuffer) : Int := b.len

theorem size_nonneg (b : QueuedBuffer) : 0 ≤ b.size := Int.natCast_nonneg _

end QueuedBuffer

/-- `forward_poll.rs`: the queue and the accounts of one socket. -/
structure SocketIo where
  role : Role
  socketId : Int
  /-- Network data queued for the local socket. -/
  out : List QueuedBuffer
  /-- Write progress into the front buffer. -/
  outOffset : Nat
  readOpen : Bool
  /-- The peer sent `closed`: flush `out`, then drop the socket. -/
  closeWhenDrained : Bool
  /-- The peer half-closed: flush `out`, then shut down the write side. -/
  shutdownWriteWhenDrained : Bool
  writeClosed : Bool
  halfCloseOnEof : Bool
  bindReplies : Option AgentSessionBindReplies
  /-- The peer's window, `-1` for a peer without one. -/
  windowBytes : Int
  windowPackets : Int
  /-- Sent to the peer and not yet confirmed delivered. -/
  inFlightBytes : Int
  inFlightPackets : Int
  /-- Local drains not yet returned to the peer as credit. -/
  creditBytes : Int
  creditPackets : Int
  lastReadFull : Bool

/-- What a read of the local socket returns; no bytes at the end of the stream. -/
inductive ReadResult where
  | bytes (data : Bytes)
  | interrupted
  | wouldBlock
  | failed (error : String)

/-- What a read of the socket gives. -/
inductive ReadOutcome where
  | data (buffer : Bytes)
  | idle
  | eof

/-- What a write to the local socket returns. -/
inductive WriteResult where
  | wrote (count : Nat)
  | interrupted
  | wouldBlock
  | failed (error : String)

namespace SocketIo
variable {s₁ s₂ s₃ s : SocketIo} {out : List QueuedBuffer}

def new (role : Role) (socketId : Int) (peerWindow : Option FlowWindow)
    (bindReplies : Option AgentSessionBindReplies) : SocketIo where
  role := role
  socketId := socketId
  out := []
  outOffset := 0
  readOpen := true
  closeWhenDrained := false
  shutdownWriteWhenDrained := false
  writeClosed := false
  halfCloseOnEof := false
  bindReplies := bindReplies
  windowBytes := peerWindow.elim (-1) FlowWindow.bytes
  windowPackets := peerWindow.elim (-1) FlowWindow.packets
  inFlightBytes := 0
  inFlightPackets := 0
  creditBytes := 0
  creditPackets := 0
  lastReadFull := false

def windowed (s : SocketIo) : Bool := decide (0 ≤ s.windowBytes) && decide (0 ≤ s.windowPackets)

def readInterest (s : SocketIo) : Bool :=
  if !s.readOpen || s.closeWhenDrained then false
  else if !s.windowed then true
  else decide (s.inFlightBytes < s.windowBytes) && decide (s.inFlightPackets < s.windowPackets)

def writeInterest (s : SocketIo) : Bool := !s.out.isEmpty

/-- Queue network data; `none` when the queue is full, and the caller keeps the buffer. -/
def queueWrite (s : SocketIo) (buffer : Bytes) : Option SocketIo :=
  if outQueuePackets ≤ s.out.length then none
  else some { s with out := s.out ++ [⟨buffer, 0, buffer.length, by simp⟩] }

def queueWriteSpan (s : SocketIo) (data : Bytes) (start len : Nat) (fits : start + len ≤ data.length) :
    Option SocketIo :=
  if len = 0 then some s
  else if maxDataPacket < len ∨ outQueuePackets ≤ s.out.length then none
  else some { s with out := s.out ++ [⟨data, start, len, fits⟩] }

/-- Writes after the write side is shut down, or is about to be, are dropped. -/
def isWriteClosed (s : SocketIo) : Bool := s.writeClosed || s.closeWhenDrained || s.shutdownWriteWhenDrained

def applyDelivery (s : SocketIo) (delivered : FlowWindow) : SocketIo :=
  { s with
    inFlightBytes :=
      if 0 < delivered.bytes then max (saturatingSub s.inFlightBytes delivered.bytes) 0 else s.inFlightBytes
    inFlightPackets :=
      if 0 < delivered.packets then max (saturatingSub s.inFlightPackets delivered.packets) 0
      else s.inFlightPackets }

def noteSent (s : SocketIo) (bytes : Nat) : SocketIo :=
  if !s.windowed then s
  else
    { s with
      inFlightBytes := saturatingAdd s.inFlightBytes (if (bytes : Int) ≤ i64Max then bytes else i64Max)
      inFlightPackets := saturatingAdd s.inFlightPackets 1 }

/-- How much a read may take: the scratch buffer, bounded by what is left of the window. -/
def readLimit (s : SocketIo) (scratch : Nat) : Nat :=
  if s.windowed then (min (saturatingSub s.windowBytes s.inFlightBytes) scratch).toNat else scratch

/-- The loop of a read; replies to binds are taken off and read past. -/
def readLoop (s : SocketIo) (limit scratch : Nat) : List ReadResult → Except String ReadOutcome × SocketIo
  | [] | .wouldBlock :: _ => (.ok .idle, s)
  | .interrupted :: reads => readLoop s limit scratch reads
  | .failed error :: _ => (.error error, s)
  | .bytes data :: reads =>
    let data := data.take limit
    if data.isEmpty then (.ok .eof, s)
    else
      let s := { s with lastReadFull := data.length == scratch }
      match s.bindReplies with
      | none => (.ok (.data data), s.noteSent data.length)
      | some replies =>
        match replies.consume data with
        | none => (.error "invalid ssh agent reply to session binding", s)
        | some (forwarded, replies) =>
          let s := { s with bindReplies := some replies }
          if forwarded.isEmpty then readLoop s limit scratch reads
          else (.ok (.data forwarded), s.noteSent forwarded.length)

def readEncodedChunk (s : SocketIo) (scratch : Nat) (reads : List ReadResult) : Except String ReadOutcome × SocketIo :=
  let limit := s.readLimit scratch
  if limit = 0 then (.ok .idle, s) else s.readLoop limit scratch reads

/-- A buffer the local socket took in full is owed to the peer as credit. -/
def noteDrained (s : SocketIo) (len : Nat) : SocketIo :=
  if s.windowed then
    { s with
      creditBytes := saturatingAdd s.creditBytes (if (len : Int) ≤ i64Max then len else i64Max)
      creditPackets := saturatingAdd s.creditPackets 1 }
  else s

/-- What a write is given: the rest of the front buffer and up to fifteen more. -/
def offered (s : SocketIo) : Bytes :=
  match s.out.take 16 with
  | [] => []
  | front :: rest => front.bytes.drop s.outOffset ++ rest.flatMap QueuedBuffer.bytes

/-- `written` bytes of the queue were taken. -/
def advance (s : SocketIo) : List QueuedBuffer → Nat → SocketIo
  | [], _ => { s with out := [] }
  | front :: rest, written =>
    if written = 0 then { s with out := front :: rest }
    else
      let rem := front.len - s.outOffset
      if rem ≤ written then advance ({ s with outOffset := 0 }.noteDrained front.len) rest (written - rem)
      else { s with out := front :: rest, outOffset := s.outOffset + written }

/-- Flush queued data toward the local socket: the result, and the bytes it took. -/
def flushOut (s : SocketIo) : List WriteResult → Except String Unit × SocketIo × Bytes
  | [] => (.ok (), s, [])
  | result :: results =>
    if s.out.isEmpty then (.ok (), s, [])
    else match result with
      | .wouldBlock => (.ok (), s, [])
      | .interrupted => s.flushOut results
      | .failed error => (.error error, s, [])
      | .wrote count =>
        let written := s.offered.take count
        if written.isEmpty then (.error "forwarded socket closed during write", s, [])
        else
          let r := (s.advance s.out written.length).flushOut results
          (r.1, r.2.1, written ++ r.2.2)

def creditDue (s : SocketIo) : Bool :=
  decide (0 < s.creditBytes) && decide (0 < s.creditPackets) &&
    (decide (creditBatch s.windowBytes creditReturnThreshold ≤ s.creditBytes) ||
      decide (creditBatch s.windowPackets packetCreditReturnThreshold ≤ s.creditPackets) ||
      (s.out.isEmpty && decide (drainedCreditBytes ≤ s.creditBytes)))

def takeCredit (s : SocketIo) : Option (Int × Int) × SocketIo :=
  if s.creditBytes ≤ 0 ∨ s.creditPackets ≤ 0 then (none, s)
  else (some (s.creditBytes, s.creditPackets), { s with creditBytes := 0, creditPackets := 0 })

/-! ### The two halves of a socket -/

/-- Nothing the sending half reads has changed. -/
structure SameSender (s s' : SocketIo) : Prop where
  readOpen : s'.readOpen = s.readOpen
  closeWhenDrained : s'.closeWhenDrained = s.closeWhenDrained
  windowBytes : s'.windowBytes = s.windowBytes
  windowPackets : s'.windowPackets = s.windowPackets
  inFlightBytes : s'.inFlightBytes = s.inFlightBytes
  inFlightPackets : s'.inFlightPackets = s.inFlightPackets

/-- Nothing the receiving half reads has changed. -/
structure SameReceiver (s s' : SocketIo) : Prop where
  role : s'.role = s.role
  socketId : s'.socketId = s.socketId
  out : s'.out = s.out
  outOffset : s'.outOffset = s.outOffset
  isWriteClosed : s'.isWriteClosed = s.isWriteClosed
  writeClosed : s'.writeClosed = s.writeClosed
  windowBytes : s'.windowBytes = s.windowBytes
  windowPackets : s'.windowPackets = s.windowPackets
  creditBytes : s'.creditBytes = s.creditBytes
  creditPackets : s'.creditPackets = s.creditPackets

theorem SameSender.refl (s : SocketIo) : SameSender s s := ⟨rfl, rfl, rfl, rfl, rfl, rfl⟩

theorem SameSender.trans (h : SameSender s₁ s₂) (h' : SameSender s₂ s₃) : SameSender s₁ s₃ :=
  ⟨h'.readOpen.trans h.readOpen, h'.closeWhenDrained.trans h.closeWhenDrained, h'.windowBytes.trans h.windowBytes,
    h'.windowPackets.trans h.windowPackets, h'.inFlightBytes.trans h.inFlightBytes,
    h'.inFlightPackets.trans h.inFlightPackets⟩

theorem SameReceiver.refl (s : SocketIo) : SameReceiver s s := ⟨rfl, rfl, rfl, rfl, rfl, rfl, rfl, rfl, rfl, rfl⟩

theorem SameReceiver.trans (h : SameReceiver s₁ s₂) (h' : SameReceiver s₂ s₃) :
    SameReceiver s₁ s₃ :=
  ⟨h'.role.trans h.role, h'.socketId.trans h.socketId, h'.out.trans h.out, h'.outOffset.trans h.outOffset,
    h'.isWriteClosed.trans h.isWriteClosed, h'.writeClosed.trans h.writeClosed, h'.windowBytes.trans h.windowBytes,
    h'.windowPackets.trans h.windowPackets, h'.creditBytes.trans h.creditBytes,
    h'.creditPackets.trans h.creditPackets⟩

theorem windowed_of_same {s' : SocketIo} (hbs : s'.windowBytes = s.windowBytes)
    (hpkts : s'.windowPackets = s.windowPackets) : s'.windowed = s.windowed := by
  rw [windowed, windowed, hbs, hpkts]

theorem sameReceiver_noteSent (s : SocketIo) (bytes : Nat) : SameReceiver s (s.noteSent bytes) := by
  unfold noteSent
  split
  · exact .refl s
  · exact ⟨rfl, rfl, rfl, rfl, rfl, rfl, rfl, rfl, rfl, rfl⟩

/-! ### Reading -/

/-- What is sent is counted once. -/
structure Sent (s s' : SocketIo) (bytes : Nat) : Prop where
  readOpen : s'.readOpen = s.readOpen
  closeWhenDrained : s'.closeWhenDrained = s.closeWhenDrained
  windowBytes : s'.windowBytes = s.windowBytes
  windowPackets : s'.windowPackets = s.windowPackets
  inFlightBytes : s'.inFlightBytes = s.inFlightBytes + bytes
  inFlightPackets : s'.inFlightPackets = s.inFlightPackets + 1

/-- The counters of a windowed socket are within bounds that rule out saturation. -/
structure Bounded (s : SocketIo) : Prop where
  bytes_nonneg : 0 ≤ s.inFlightBytes
  packets_nonneg : 0 ≤ s.inFlightPackets
  bytes_le : s.inFlightBytes ≤ s.windowBytes
  packets_le : s.inFlightPackets ≤ s.windowPackets
  windowBytes_le : s.windowBytes ≤ EternalTerminal.windowBytes
  windowPackets_le : s.windowPackets ≤ EternalTerminal.windowPackets

theorem Bounded.windowed (h : Bounded s) : s.windowed = true := by
  have h₁ := h.bytes_nonneg
  have h₂ := h.bytes_le
  have h₃ := h.packets_nonneg
  have h₄ := h.packets_le
  simp only [SocketIo.windowed, Bool.and_eq_true, decide_eq_true_eq]
  omega

theorem sent_noteSent (h : Bounded s) {bytes : Nat} (hbs : s.inFlightBytes + bytes ≤ s.windowBytes) :
    Sent s (s.noteSent bytes) bytes := by
  have h₁ := h.bytes_nonneg
  have h₂ := h.windowBytes_le
  have h₃ := h.packets_nonneg
  have h₄ := h.packets_le
  have h₅ := h.windowPackets_le
  unfold EternalTerminal.windowBytes at h₂
  unfold EternalTerminal.windowPackets at h₅
  rw [noteSent, h.windowed, Bool.not_true, if_neg Bool.false_ne_true]
  rw [if_pos (by unfold i64Max; omega), saturatingAdd_eq (by unfold i64Max; omega) (by unfold i64Max; omega),
    saturatingAdd_eq (by unfold i64Max; omega) (by unfold i64Max; omega)]
  exact ⟨rfl, rfl, rfl, rfl, rfl, rfl⟩

theorem Bounded.of_sameSender {s' : SocketIo} (h : Bounded s) (hsame : SameSender s s') : Bounded s' := by
  obtain ⟨-, -, hbs, hpkts, hinBytes, hinPackets⟩ := hsame
  obtain ⟨h₁, h₂, h₃, h₄, h₅, h₆⟩ := h
  constructor <;> simp only [hbs, hpkts, hinBytes, hinPackets] <;> assumption

/-- The outcomes of a read of at most `limit` bytes. -/
inductive ReadSpec (s : SocketIo) (limit : Nat) : Except String ReadOutcome × SocketIo → Prop where
  | data {buffer : Bytes} {s' : SocketIo} (nonempty : buffer ≠ []) (le : buffer.length ≤ limit)
      (sent : Sent s s' buffer.length) (receiver : SameReceiver s s') : ReadSpec s limit (.ok (.data buffer), s')
  | idle {s' : SocketIo} (sender : SameSender s s') (receiver : SameReceiver s s') : ReadSpec s limit (.ok .idle, s')
  | eof {s' : SocketIo} (sender : SameSender s s') (receiver : SameReceiver s s') : ReadSpec s limit (.ok .eof, s')
  | failed {error : String} {s' : SocketIo} (sender : SameSender s s') (receiver : SameReceiver s s') :
      ReadSpec s limit (.error error, s')

theorem ReadSpec.of_same {t : SocketIo} {limit : Nat} {r : Except String ReadOutcome × SocketIo}
    (hsend : SameSender s t) (hreceiver : SameReceiver s t) (h : ReadSpec t limit r) : ReadSpec s limit r := by
  cases h with
  | data hne hle hsent hsame =>
    refine .data hne hle ?_ (hreceiver.trans hsame)
    exact ⟨hsent.readOpen.trans hsend.readOpen, hsent.closeWhenDrained.trans hsend.closeWhenDrained,
      hsent.windowBytes.trans hsend.windowBytes, hsent.windowPackets.trans hsend.windowPackets,
      by rw [hsent.inFlightBytes, hsend.inFlightBytes], by rw [hsent.inFlightPackets, hsend.inFlightPackets]⟩
  | idle hsame hsame' => exact .idle (hsend.trans hsame) (hreceiver.trans hsame')
  | eof hsame hsame' => exact .eof (hsend.trans hsame) (hreceiver.trans hsame')
  | failed hsame hsame' => exact .failed (hsend.trans hsame) (hreceiver.trans hsame')

/-- The outcomes of a read that left the socket as `t` before counting what it sends. -/
inductive ReadFrom (t : SocketIo) (limit : Nat) : Except String ReadOutcome × SocketIo → Prop where
  | data {buffer : Bytes} (nonempty : buffer ≠ []) (le : buffer.length ≤ limit) :
      ReadFrom t limit (.ok (.data buffer), t.noteSent buffer.length)
  | idle : ReadFrom t limit (.ok .idle, t)
  | eof : ReadFrom t limit (.ok .eof, t)
  | failed (error : String) : ReadFrom t limit (.error error, t)

theorem readLoop_cases (s : SocketIo) (limit scratch : Nat) (reads : List ReadResult) :
    ∃ t, SameSender s t ∧ SameReceiver s t ∧ ReadFrom t limit (s.readLoop limit scratch reads) := by
  induction reads generalizing s with
  | nil => exact ⟨s, .refl s, .refl s, .idle⟩
  | cons result reads ih =>
    cases result with
    | wouldBlock => exact ⟨s, .refl s, .refl s, .idle⟩
    | interrupted => exact ih s
    | failed error => exact ⟨s, .refl s, .refl s, .failed error⟩
    | bytes data =>
      have htake : (data.take limit).length ≤ limit := length_take_le _ _
      rw [readLoop]
      generalize data.take limit = data at htake ⊢
      dsimp only
      split
      · exact ⟨s, .refl s, .refl s, .eof⟩
      rename_i hne
      have hread : SameSender s { s with lastReadFull := data.length == scratch } ∧
          SameReceiver s { s with lastReadFull := data.length == scratch } :=
        ⟨⟨rfl, rfl, rfl, rfl, rfl, rfl⟩, ⟨rfl, rfl, rfl, rfl, rfl, rfl, rfl, rfl, rfl, rfl⟩⟩
      split
      · exact ⟨_, hread.1, hread.2, .data (mt List.isEmpty_iff.mpr hne) htake⟩
      split
      · exact ⟨_, hread.1, hread.2, .failed _⟩
      rename_i forwarded replies hconsume
      have hle := AgentSessionBindReplies.length_consume_le hconsume
      split
      · obtain ⟨t, hsend, hsame, ht⟩ := ih { s with
          lastReadFull := data.length == scratch, bindReplies := some replies }
        exact ⟨t, { hsend with }, { hsame with }, ht⟩
      next hforwarded =>
        refine ⟨_, ?_, ?_, .data (mt List.isEmpty_iff.mpr hforwarded) (hle.trans htake)⟩
        · exact { hread.1 with }
        · exact { hread.2 with }

theorem readLoop_spec (h : Bounded s) {limit : Nat} (hlim : s.inFlightBytes + limit ≤ s.windowBytes)
    (scratch : Nat) (reads : List ReadResult) : ReadSpec s limit (s.readLoop limit scratch reads) := by
  obtain ⟨t, hsend, hsame, hread⟩ := s.readLoop_cases limit scratch reads
  generalize s.readLoop limit scratch reads = result at hread ⊢
  cases hread with
  | data hne hle =>
    rw [← hsend.inFlightBytes, ← hsend.windowBytes] at hlim
    exact .of_same hsend hsame
      (.data hne hle (sent_noteSent (h.of_sameSender hsend) (by omega)) (sameReceiver_noteSent t _))
  | idle => exact .idle hsend hsame
  | eof => exact .eof hsend hsame
  | failed error => exact .failed hsend hsame

/-- **A read stays within the window.** -/
theorem readEncodedChunk_spec (h : Bounded s) (scratch : Nat) (reads : List ReadResult) :
    ∃ limit : Nat, limit ≤ scratch ∧ s.inFlightBytes + limit ≤ s.windowBytes ∧
      ReadSpec s limit (s.readEncodedChunk scratch reads) := by
  have h₁ := h.bytes_nonneg
  have h₂ := h.bytes_le
  have h₃ := h.windowBytes_le
  unfold EternalTerminal.windowBytes at h₃
  have hlim : s.readLimit scratch = (min (s.windowBytes - s.inFlightBytes) scratch).toNat := by
    rw [readLimit, if_pos h.windowed, saturatingSub_eq (by unfold i64Max; omega) (by unfold i64Max; omega)]
  refine ⟨s.readLimit scratch, by omega, by omega, ?_⟩
  unfold readEncodedChunk
  dsimp only
  split
  · exact .idle (.refl s) (.refl s)
  · exact readLoop_spec h (by omega) scratch reads

/-- A read does not concern the receiving half. -/
theorem sameReceiver_readEncodedChunk (s : SocketIo) (scratch : Nat) (reads : List ReadResult) :
    SameReceiver s (s.readEncodedChunk scratch reads).2 := by
  unfold readEncodedChunk
  dsimp only
  split
  · exact .refl s
  obtain ⟨t, -, hsame, hread⟩ := s.readLoop_cases (s.readLimit scratch) scratch reads
  generalize s.readLoop (s.readLimit scratch) scratch reads = result at hread ⊢
  cases hread with
  | data => exact hsame.trans (sameReceiver_noteSent t _)
  | idle | eof | failed => exact hsame

/-! ### Writing -/

/-- The bytes of the queue the local socket has not taken. -/
def unwritten : List QueuedBuffer → Nat → Bytes
  | [], _ => []
  | front :: rest, offset => front.bytes.drop offset ++ rest.flatMap QueuedBuffer.bytes

/-- The write progress lies within the front buffer. -/
def OffsetWithin : List QueuedBuffer → Nat → Prop
  | [], offset => offset = 0
  | front :: _, offset => offset < front.len

/-- Writing changes the queue and the credit only. -/
structure Wrote (s s' : SocketIo) : Prop where
  role : s'.role = s.role
  socketId : s'.socketId = s.socketId
  sender : SameSender s s'
  isWriteClosed : s'.isWriteClosed = s.isWriteClosed
  writeClosed : s'.writeClosed = s.writeClosed

theorem Wrote.refl (s : SocketIo) : Wrote s s := ⟨rfl, rfl, .refl s, rfl, rfl⟩

theorem Wrote.trans (h : Wrote s₁ s₂) (h' : Wrote s₂ s₃) : Wrote s₁ s₃ :=
  ⟨h'.role.trans h.role, h'.socketId.trans h.socketId, h.sender.trans h'.sender,
    h'.isWriteClosed.trans h.isWriteClosed, h'.writeClosed.trans h.writeClosed⟩

theorem wrote_noteDrained (s : SocketIo) (len : Nat) : Wrote s (s.noteDrained len) := by
  unfold noteDrained
  split
  · exact ⟨rfl, rfl, ⟨rfl, rfl, rfl, rfl, rfl, rfl⟩, rfl, rfl⟩
  · exact .refl s

theorem outOffset_noteDrained (s : SocketIo) (len : Nat) : (s.noteDrained len).outOffset = s.outOffset := by
  unfold noteDrained
  split <;> rfl

theorem wrote_advance (s : SocketIo) (out : List QueuedBuffer) (written : Nat) : Wrote s (s.advance out written) := by
  induction out generalizing s written with
  | nil => exact ⟨rfl, rfl, ⟨rfl, rfl, rfl, rfl, rfl, rfl⟩, rfl, rfl⟩
  | cons front rest ih =>
    rw [advance]
    dsimp only
    split
    · exact ⟨rfl, rfl, ⟨rfl, rfl, rfl, rfl, rfl, rfl⟩, rfl, rfl⟩
    split
    · have hdr := wrote_noteDrained { s with outOffset := 0 } front.len
      have hreset : Wrote s { s with outOffset := 0 } := ⟨rfl, rfl, ⟨rfl, rfl, rfl, rfl, rfl, rfl⟩, rfl, rfl⟩
      exact (hreset.trans hdr).trans (ih _ _)
    · exact ⟨rfl, rfl, ⟨rfl, rfl, rfl, rfl, rfl, rfl⟩, rfl, rfl⟩

theorem offsetWithin_zero (hpos : ∀ b ∈ out, 0 < b.len) : OffsetWithin out 0 := by
  cases out with
  | nil => exact rfl
  | cons b out => exact hpos b mem_cons_self

/-- What was taken leaves the front of the queue. -/
theorem advance_queue (hpos : ∀ b ∈ out, 0 < b.len) (hoff : OffsetWithin out s.outOffset) {written : Nat}
    (hle : written ≤ (unwritten out s.outOffset).length) :
    unwritten (s.advance out written).out (s.advance out written).outOffset =
        (unwritten out s.outOffset).drop written ∧
      OffsetWithin (s.advance out written).out (s.advance out written).outOffset ∧
      (s.advance out written).out <:+ out := by
  induction out generalizing s written with
  | nil => exact ⟨drop_nil.symm, hoff, suffix_refl _⟩
  | cons front rest ih =>
    rw [advance]
    dsimp only
    split
    next hzero =>
      subst hzero
      exact ⟨rfl, hoff, suffix_refl _⟩
    have hlen : (front.bytes.drop s.outOffset).length = front.len - s.outOffset := by
      rw [length_drop, QueuedBuffer.length_bytes]
    rw [unwritten, length_append, hlen] at hle
    split
    next hrem =>
      have hpos' : ∀ b ∈ rest, 0 < b.len := fun b hb => hpos b (mem_cons_of_mem _ hb)
      have hzero : ({ s with outOffset := 0 }.noteDrained front.len).outOffset = 0 := outOffset_noteDrained _ _
      have hrest : unwritten rest 0 = rest.flatMap QueuedBuffer.bytes := by
        cases rest with
        | nil => rfl
        | cons b rest => rfl
      generalize { s with outOffset := 0 }.noteDrained front.len = t at hzero ⊢
      have hleft : written - (front.len - s.outOffset) ≤ (unwritten rest t.outOffset).length := by
        rw [hzero, hrest]
        omega
      have hin : OffsetWithin rest t.outOffset := by
        rw [hzero]
        exact offsetWithin_zero hpos'
      obtain ⟨hunwritten, hin, hsuf⟩ := ih hpos' hin hleft
      refine ⟨?_, hin, hsuf.trans (suffix_cons _ _)⟩
      rw [hunwritten, hzero, hrest, unwritten, drop_append, hlen,
        drop_of_length_le (i := written) (by omega), nil_append]
    · refine ⟨?_, ?_, suffix_refl _⟩
      · rw [unwritten, unwritten, drop_append_of_le_length (by omega), drop_drop]
      · show s.outOffset + written < front.len
        omega

/-- The credit of a windowed socket: in range, and in bytes as soon as it is in packets. -/
structure CreditSound (s : SocketIo) : Prop where
  windowed : s.windowed = true
  bytes_nonneg : 0 ≤ s.creditBytes
  packets_nonneg : 0 ≤ s.creditPackets
  bytes_le : s.creditBytes ≤ i64Max
  packets_le : s.creditPackets ≤ i64Max
  both : 0 < s.creditBytes ↔ 0 < s.creditPackets

/-- Between `s` and `s'` queued packets became credit, all of it unless the counters saturate. -/
structure Credited (s s' : SocketIo) : Prop where
  bytes_le : s'.creditBytes + total QueuedBuffer.size s'.out ≤ s.creditBytes + total QueuedBuffer.size s.out
  packets_le : s'.creditPackets + s'.out.length ≤ s.creditPackets + s.out.length
  le_bytes : min i64Max (s.creditBytes + total QueuedBuffer.size s.out) ≤ s'.creditBytes + total QueuedBuffer.size s'.out
  le_packets : min i64Max (s.creditPackets + s.out.length) ≤ s'.creditPackets + s'.out.length
  sound : CreditSound s'

theorem Credited.refl (h : CreditSound s) : Credited s s :=
  ⟨Int.le_refl _, Int.le_refl _, Int.min_le_right _ _, Int.min_le_right _ _, h⟩

theorem Credited.trans (h : Credited s₁ s₂) (h' : Credited s₂ s₃) : Credited s₁ s₃ := by
  have h₁ := h.le_bytes
  have h₂ := h.le_packets
  have h₃ := h'.le_bytes
  have h₄ := h'.le_packets
  exact ⟨h'.bytes_le.trans h.bytes_le, h'.packets_le.trans h.packets_le, by omega, by omega, h'.sound⟩

/-- A buffer that was taken in full leaves the queue and becomes credit. -/
theorem credited_noteDrained {front : QueuedBuffer} {rest : List QueuedBuffer}
    (h : CreditSound { s with out := front :: rest }) (hpos : 0 < front.len) :
    Credited { s with out := front :: rest } { { s with outOffset := 0 }.noteDrained front.len with out := rest } := by
  obtain ⟨hw, h₁, h₂, h₃, h₄, hboth⟩ := h
  have hw' : { s with outOffset := 0 }.windowed = true := hw
  have hq := total_nonneg QueuedBuffer.size (l := rest) fun b _ => b.size_nonneg
  dsimp only at h₁ h₂ h₃ h₄ hboth
  unfold i64Max at h₃ h₄
  obtain ⟨bytes, hbs⟩ : ∃ bytes, saturatingAdd s.creditBytes (if (front.len : Int) ≤ i64Max then front.len else i64Max) =
      bytes := ⟨_, rfl⟩
  obtain ⟨packets, hpkts⟩ : ∃ packets, saturatingAdd s.creditPackets 1 = packets := ⟨_, rfl⟩
  rw [noteDrained, if_pos hw']
  rw [hbs, hpkts]
  unfold saturatingAdd i64Max at hbs hpkts
  have hrng : s.creditBytes ≤ bytes ∧ 0 < bytes ∧ bytes ≤ i64Max ∧ bytes ≤ s.creditBytes + front.len ∧
      min i64Max (s.creditBytes + front.len) ≤ bytes := by
    unfold i64Max
    split at hbs <;> omega
  have hrng' : 0 < packets ∧ packets ≤ i64Max ∧ packets ≤ s.creditPackets + 1 ∧
      min i64Max (s.creditPackets + 1) ≤ packets := by
    unfold i64Max
    omega
  constructor
  · dsimp only
    rw [total_cons, QueuedBuffer.size]
    omega
  · rw [length_cons]
    push_cast
    omega
  · dsimp only
    rw [total_cons, QueuedBuffer.size]
    omega
  · rw [length_cons]
    push_cast
    omega
  · exact ⟨hw, by dsimp only; omega, by dsimp only; omega, hrng.2.2.1, hrng'.2.1,
      iff_of_true hrng.2.1 hrng'.1⟩

/-- Every buffer taken in full becomes credit. -/
theorem credited_advance (h : CreditSound { s with out := out })
    (hpos : ∀ b ∈ out, 0 < b.len) (written : Nat) : Credited { s with out := out } (s.advance out written) := by
  induction out generalizing s written with
  | nil => exact .refl h
  | cons front rest ih =>
    rw [advance]
    dsimp only
    split
    · exact .refl h
    split
    · have hfro := credited_noteDrained h (hpos front mem_cons_self)
      exact hfro.trans (ih hfro.sound (fun b hb => hpos b (mem_cons_of_mem _ hb)) _)
    · exact ⟨Int.le_refl _, Int.le_refl _, Int.min_le_right _ _, Int.min_le_right _ _, { h with }⟩

/-- What a write is given is the front of what was not taken. -/
theorem offered_isPrefix (s : SocketIo) : s.offered <+: unwritten s.out s.outOffset := by
  unfold offered
  cases hout : s.out with
  | nil => exact prefix_refl _
  | cons front rest =>
    refine (prefix_append_right_inj _).mpr ?_
    refine ⟨(rest.drop 15).flatMap QueuedBuffer.bytes, ?_⟩
    rw [← flatMap_append, take_append_drop]

/-- A flush is a run of writes. -/
theorem flushOut_induction {P : SocketIo → SocketIo → Bytes → Prop} (hrefl : ∀ s, P s s [])
    (hstep : ∀ s count s' written, P (s.advance s.out (s.offered.take count).length) s' written →
      P s s' (s.offered.take count ++ written)) (s : SocketIo) (results : List WriteResult) :
    P s (s.flushOut results).2.1 (s.flushOut results).2.2 := by
  induction results generalizing s with
  | nil => exact hrefl s
  | cons result results ih =>
    unfold flushOut
    split
    · exact hrefl s
    cases result with
    | wouldBlock => exact hrefl s
    | interrupted => exact ih s
    | failed error => exact hrefl s
    | wrote count =>
      dsimp only
      split
      · exact hrefl s
      · exact hstep s count _ _ (ih _)

theorem wrote_flushOut (s : SocketIo) (results : List WriteResult) : Wrote s (s.flushOut results).2.1 :=
  flushOut_induction (P := fun s s' _ => Wrote s s') .refl
    (fun s _ _ _ h => (wrote_advance s s.out _).trans h) s results

/-- **What is written is the front of what was queued**, and every queued packet becomes credit. -/
theorem flushOut_spec (hpos : ∀ b ∈ s.out, 0 < b.len) (hoff : OffsetWithin s.out s.outOffset)
    (results : List WriteResult) :
    (s.flushOut results).2.2 ++ unwritten (s.flushOut results).2.1.out (s.flushOut results).2.1.outOffset =
        unwritten s.out s.outOffset ∧
      OffsetWithin (s.flushOut results).2.1.out (s.flushOut results).2.1.outOffset ∧
      (s.flushOut results).2.1.out <:+ s.out ∧ (CreditSound s → Credited s (s.flushOut results).2.1) := by
  refine flushOut_induction
    (P := fun s s' written => (∀ b ∈ s.out, 0 < b.len) → OffsetWithin s.out s.outOffset →
      written ++ unwritten s'.out s'.outOffset = unwritten s.out s.outOffset ∧
        OffsetWithin s'.out s'.outOffset ∧ s'.out <:+ s.out ∧ (CreditSound s → Credited s s'))
    (fun s _ hoff => ⟨nil_append _, hoff, suffix_refl _, .refl⟩) ?_ s results hpos hoff
  intro s count s' written ih hpos hoff
  have hprefix : s.offered.take count <+: unwritten s.out s.outOffset :=
    (List.take_prefix _ _).trans s.offered_isPrefix
  obtain ⟨hunwritten, hin, hsuf⟩ := advance_queue hpos hoff hprefix.length_le
  obtain ⟨hrest, hin', hsuf', hcredited⟩ := ih (fun b hb => hpos b (hsuf.subset hb)) hin
  refine ⟨?_, hin', hsuf'.trans hsuf, fun h => ?_⟩
  · rw [append_assoc, hrest, hunwritten]
    exact (prefix_iff_eq_append.mp hprefix)
  · have hadvance := credited_advance h hpos (s.offered.take count).length
    exact hadvance.trans (hcredited hadvance.sound)

end SocketIo

end EternalTerminal
