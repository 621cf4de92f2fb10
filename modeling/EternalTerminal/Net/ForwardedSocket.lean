import EternalTerminal.Lib.Protobuf
import EternalTerminal.Net.SocketIo

/-!
# Net — what a worker does with a socket

The packets a forwarding worker exchanges about one socket, and what it does with that socket when a packet
arrives, when `poll` reports it and when its queues are flushed (`forward_worker_state.rs`,
`forward_poll.rs`).  Each operation takes the socket the worker's map holds, or none, and answers with what
the map holds after it, what is held back, what is sent in the data and in the priority lane, and what was
written to the local socket.
-/

namespace EternalTerminal
open Machine Bytes History List

def Role.peer : Role → Role
  | .source => .destination
  | .destination => .source

/-! ### Packets -/

/-- A data packet, as it decodes. -/
structure PortForwardData where
  sourceToDestination : Option Bool
  socketId : Option Int
  buffer : Option Bytes
  error : Option String
  closed : Option Bool
  halfClose : Option Bool
  window : Option PortForwardWindow
  deriving DecidableEq

namespace PortForwardData

/-- The map a packet is about at the worker it arrives at. -/
def role (d : PortForwardData) : Role := if d.sourceToDestination.getD false then .destination else .source

end PortForwardData

def sendData (role : Role) (socketId : Int) (buffer : Bytes) (closed : Bool) (error : Option String) :
    PortForwardData where
  sourceToDestination := some (role == .source)
  socketId := some socketId
  -- exactly one of buffer, closed and error is set
  buffer := if error.isSome || closed || buffer.isEmpty then none else some buffer
  error := error
  closed := if error.isNone && closed then some true else none
  halfClose := none
  window := none

def sendHalfClose (role : Role) (socketId : Int) : PortForwardData where
  sourceToDestination := some (role == .source)
  socketId := some socketId
  buffer := none
  error := none
  closed := some true
  halfClose := some true
  window := none

def i32Max : Int := 2 ^ 31 - 1

def sendCredit (role : Role) (socketId : Int) (credit packetCredit : Int) : PortForwardData where
  sourceToDestination := some (role == .source)
  socketId := some socketId
  buffer := none
  error := none
  closed := none
  halfClose := none
  window := some ⟨some credit, some (if -i32Max - 1 ≤ packetCredit ∧ packetCredit ≤ i32Max then packetCredit else i32Max)⟩

/-- The payload of a data packet as `read_encoded_chunk` builds it. -/
def encodeDataPacket (sourceToDestination : Bool) (socketId : Int) (buffer : Bytes) : Bytes :=
  0x08 :: (if sourceToDestination then 1 else 0) :: 0x10 :: (Protobuf.encodeVarint (Protobuf.varintOfInt32 socketId) ++
    0x1a :: (Protobuf.encodeVarint buffer.length ++ buffer))

/-! ### Operations -/

/-- What an operation on one socket leaves behind. -/
structure Handled where
  socket : Option SocketIo
  held : List Bytes := []
  emitted : List PortForwardData := []
  credits : List PortForwardData := []
  written : Bytes := []

def peerHalfClose : Option SocketIo → Handled
  | none => ⟨none, [], [], [], []⟩
  | some s =>
    if s.out.isEmpty && !s.writeClosed then
      ⟨some { s with shutdownWriteWhenDrained := false, writeClosed := true }, [], [], [], []⟩
    else ⟨some { s with shutdownWriteWhenDrained := true }, [], [], [], []⟩

/-- Echo the close, stop reading, and flush what is queued before dropping the socket. -/
def peerClosed (role : Role) (socketId : Int) : Option SocketIo → Handled
  | none => ⟨none, [], [], [], []⟩
  | some s =>
    ⟨if s.out.isEmpty then none else some { s with closeWhenDrained := true, readOpen := false }, [],
      [sendData role socketId [] true none], [], []⟩

/-- Local end of stream. -/
def readClosed (role : Role) (socketId : Int) : Option SocketIo → Handled
  | none => ⟨none, [], [], [], []⟩
  | some s =>
    if s.closeWhenDrained then ⟨some s, [], [], [], []⟩
    else if s.halfCloseOnEof then
      ⟨some { s with readOpen := false, halfCloseOnEof := false }, [], [sendHalfClose role socketId], [], []⟩
    else
      ⟨if s.out.isEmpty then none else some { s with readOpen := false, closeWhenDrained := true }, [],
        [sendData role socketId [] true none], [], []⟩

/-- Queue network data, holding it back when the queue is full. -/
def admitData (socket : Option SocketIo) (buffer : Bytes) : Handled :=
  match socket with
  | none => ⟨none, [], [], [], []⟩
  | some s =>
    if s.isWriteClosed then ⟨some s, [], [], [], []⟩
    else match s.queueWrite buffer with
      | some s => ⟨some s, [], [], [], []⟩
      | none => ⟨some s, [buffer], [], [], []⟩

def admitDataSpan (socket : Option SocketIo) (data : Bytes) (start len : Nat) (fits : start + len ≤ data.length) :
    Handled :=
  match socket with
  | none => ⟨none, [], [], [], []⟩
  | some s =>
    if s.isWriteClosed || len == 0 then ⟨some s, [], [], [], []⟩
    else if maxDataPacket < len then ⟨none, [], [], [], []⟩
    else match s.queueWriteSpan data start len fits with
      | some s => ⟨some s, [], [], [], []⟩
      | none => ⟨some s, [(data.drop start).take len], [], [], []⟩

def applyWindow (socket : Option SocketIo) (delivered : Option FlowWindow) : Option SocketIo :=
  match delivered with
  | none => socket
  | some delivered => socket.map (·.applyDelivery delivered)

def receiveData (role : Role) (socketId : Int) (socket : Option SocketIo) (d : PortForwardData) : Handled :=
  let buffer := d.buffer.getD []
  if d.error.isSome then ⟨none, [], [], [], []⟩
  else
    let delivered := decodeWindow d.window
    let socket := applyWindow socket delivered
    if delivered.isSome && buffer.isEmpty && !d.closed.getD false && !d.halfClose.getD false then
      ⟨socket, [], [], [], []⟩
    else if role == .destination && d.halfClose.getD false then peerHalfClose socket
    else if d.closed.getD false then peerClosed role socketId socket
    else if buffer.isEmpty then ⟨socket, [], [], [], []⟩
    else if maxDataPacket < buffer.length then ⟨none, [], [], [], []⟩
    else admitData socket buffer

/-- A data packet: `header` is what precedes the buffer in a payload that the fast parser recognises. -/
def handleData (role : Role) (socketId : Int) (header : Option Bytes) (socket : Option SocketIo) (d : PortForwardData) :
    Handled :=
  match header, d.buffer with
  | some header, some buffer =>
    if d.error.isNone && d.closed.isNone && d.halfClose.isNone && d.window.isNone then
      if buffer.length = 0 then ⟨socket, [], [], [], []⟩
      else if maxDataPacket < buffer.length then ⟨none, [], [], [], []⟩
      else admitDataSpan socket (header ++ buffer) header.length buffer.length (by rw [length_append])
    else receiveData role socketId socket d
  | _, _ => receiveData role socketId socket d

/-- The response arrived: the data read before it is sent, and the socket becomes active. -/
def destinationResponse (socketId : Int) (window : Option PortForwardWindow) (early : Bytes) (halfCloseOnEof : Bool) :
    Handled :=
  ⟨some { SocketIo.new .source socketId (decodeWindow window) none with halfCloseOnEof := halfCloseOnEof }, [],
    if early.isEmpty then [] else [sendData .source socketId early false none], [], []⟩

/-- `flush_held` over any table of sockets: the buffers held back are tried again, up to the first whose queue is full. -/
def flushHeld {T K : Type} (get : T → K → Option SocketIo) (set : T → K → SocketIo → T) :
    T → List (K × Bytes) → T × List (K × Bytes)
  | sockets, [] => (sockets, [])
  | sockets, (key, buffer) :: held =>
    match get sockets key with
    | none => flushHeld get set sockets held
    | some s =>
      if s.isWriteClosed then flushHeld get set sockets held
      else match s.queueWrite buffer with
        | some s => flushHeld get set (set sockets key s) held
        | none => (sockets, (key, buffer) :: held)

/-- What queueing a buffer in an open socket keeps, `flush_held` keeps. -/
theorem flushHeld_keeps {T K : Type} {get : T → K → Option SocketIo} {set : T → K → SocketIo → T} {P : T → Prop}
    (hset : ∀ {t key s s' buffer}, P t → get t key = some s → ¬s.isWriteClosed = true → s.queueWrite buffer = some s' →
      P (set t key s')) (held : List (K × Bytes)) {t : T} (h : P t) : P (flushHeld get set t held).1 := by
  fun_induction flushHeld get set t held with
  | case1 | case5 => exact h
  | case2 _ _ _ _ _ ih | case3 _ _ _ _ _ _ _ ih => exact ih h
  | case4 _ _ _ _ _ hs hopen _ hq ih => exact ih (hset h hs hopen hq)

/-- `flush_held` for the buffers of one socket. -/
def flushHeldOf (socket : Option SocketIo) (held : List Bytes) : Option SocketIo × List Bytes :=
  let r := flushHeld (fun socket () => socket) (fun _ _ s => some s) socket (held.map ((), ·))
  (r.1, r.2.map Prod.snd)

/-- The credit of a socket, if it is due. -/
def flushDueCredits (role : Role) (socketId : Int) : Option SocketIo → Handled
  | none => ⟨none, [], [], [], []⟩
  | some s =>
    if s.creditDue then
      match s.takeCredit with
      | (some (credit, packetCredit), s) => ⟨some s, [], [], [sendCredit role socketId credit packetCredit], []⟩
      | (none, s) => ⟨some s, [], [], [], []⟩
    else ⟨some s, [], [], [], []⟩

/-! ### Readiness -/

/-- What `poll` reported of a socket. -/
structure ReadySocket where
  readable : Bool
  writable : Bool
  error : Bool

/-- What becomes of a serviced socket. -/
inductive SocketVerdict where
  | keep
  | drop
  | eof

def readsPerCycle : Nat := 128
def pipelineChunk : Nat := 16 * 1024

/-- What to read after a full first piece, by how much is available. -/
def pipelinedSplit (available : Option Nat) : Nat × Nat :=
  match available with
  | some available =>
    if available ≤ 4 * forwardReadLen then
      (available, min (max ((available + 3) / 4) pipelineChunk) forwardReadLen)
    else (0, forwardReadLen)
  | none => (0, forwardReadLen)

def readLen : Option (Nat × Nat) → Nat
  | none => pipelineChunk
  | some (bytes, len) => if 0 < bytes then len else forwardReadLen

/-- The world at one turn of the read loop: whether the outbound backlog is full, what the socket answers,
and how much it says is available. -/
structure ReadTurn where
  backlogFull : Bool
  reads : List ReadResult
  available : Option Nat

namespace SocketIo

/-- Shut the write side down once everything queued is flushed. -/
def shutdownDrained (s : SocketIo) : SocketIo :=
  if s.shutdownWriteWhenDrained && !s.writeClosed then
    { s with shutdownWriteWhenDrained := false, writeClosed := true }
  else s

/-- The read loop of `service_socket`: a verdict if it ends the socket, the socket, and what is sent. -/
def readTurns (s : SocketIo) (split : Option (Nat × Nat)) (reads : Nat) :
    List ReadTurn → Option SocketVerdict × SocketIo × List PortForwardData
  | [] => (none, s, [])
  | turn :: turns =>
    if s.readInterest && decide (reads < readsPerCycle) && !turn.backlogFull then
      match s.readEncodedChunk (readLen split) turn.reads with
      | (.ok (.data buffer), s') =>
        let payload := encodeDataPacket (s.role == .source) s.socketId buffer
        let packet := sendData s.role s.socketId buffer false none
        let split := match split with
          | none => if s'.lastReadFull then pipelinedSplit turn.available else (0, forwardReadLen)
          | some (bytes, len) => (bytes - payload.length, len)
        if payload.length ≤ 4096 then (none, s', [packet])
        else
          let r := s'.readTurns (some split) (reads + 1) turns
          (r.1, r.2.1, packet :: r.2.2)
      | (.ok .idle, s') => (none, s', [])
      | (.ok .eof, s') => (some .eof, s', [])
      | (.error error, s') => (some .drop, s', [sendData s.role s.socketId [] true (some error)])
    else (none, s, [])

/-- Flush queued writes, then read: the verdict, the socket, what is sent and what was written. -/
def serviceSocket (s : SocketIo) (event : ReadySocket) (writes : List WriteResult) (turns : List ReadTurn) :
    SocketVerdict × SocketIo × List PortForwardData × Bytes :=
  let flush := if event.writable || (event.error && s.writeInterest) then s.flushOut writes else (.ok (), s, [])
  match flush with
  | (.error error, s, written) => (.drop, s, [sendData s.role s.socketId [] true (some error)], written)
  | (.ok (), s, written) =>
    if s.out.isEmpty && s.closeWhenDrained then (.drop, s, [], written)
    else
      let s := if s.out.isEmpty then s.shutdownDrained else s
      if event.error && !event.readable then
        (.drop, s, [sendData s.role s.socketId [] true (some "forwarded socket error")], written)
      else
        let r := if event.readable then s.readTurns none 0 turns else (none, s, [])
        match r with
        | (some verdict, s, emitted) => (verdict, s, emitted, written)
        | (none, s, emitted) =>
          (if s.closeWhenDrained && s.out.isEmpty then .drop else .keep, s, emitted, written)

end SocketIo

def serviceEvent (role : Role) (socketId : Int) (socket : Option SocketIo) (event : ReadySocket)
    (writes : List WriteResult) (turns : List ReadTurn) : Handled :=
  match socket with
  | none => ⟨none, [], [], [], []⟩
  | some s =>
    match s.serviceSocket event writes turns with
    | (.keep, s, emitted, written) => ⟨some s, [], emitted, [], written⟩
    | (.drop, _, emitted, written) => ⟨none, [], emitted, [], written⟩
    | (.eof, s, emitted, written) =>
      let closed := readClosed role socketId (some s)
      { closed with emitted := emitted ++ closed.emitted, written := written }

/-- One socket's turn of `flush_queued_writes`. -/
def flushQueuedWrite (role : Role) (socketId : Int) (socket : Option SocketIo) (writes : List WriteResult) : Handled :=
  match socket with
  | none => ⟨none, [], [], [], []⟩
  | some s =>
    if s.out.isEmpty then ⟨some s, [], [], [], []⟩
    else match s.flushOut writes with
      | (.error error, _, written) => ⟨none, [], [sendData role socketId [] true (some error)], [], written⟩
      | (.ok (), s, written) =>
        let taken := if s.out.isEmpty && s.creditDue then s.takeCredit else (none, s)
        let credits := taken.1.elim [] fun credit => [sendCredit role socketId credit.1 credit.2]
        let s := taken.2
        if s.out.isEmpty && s.closeWhenDrained then ⟨none, [], [], credits, written⟩
        else ⟨some (if s.out.isEmpty then s.shutdownDrained else s), [], [], credits, written⟩

/-! ### Sockets that are dropped -/

section
variable {s : SocketIo} {d : PortForwardData} {buffer : Bytes}

/-- An operation failed on the local socket, which the peer is told. -/
def Handled.Reports (h : Handled) : Prop := ∃ d ∈ h.emitted, d.error.isSome = true

instance (h : Handled) : Decidable h.Reports := inferInstanceAs (Decidable (∃ d ∈ h.emitted, d.error.isSome = true))

/-! ### How data is admitted -/

/-- The socket with one more buffer in its queue. -/
def SocketIo.push (s : SocketIo) (b : QueuedBuffer) : SocketIo := { s with out := s.out ++ [b] }

theorem zero_add_length_le (buffer : Bytes) : 0 + buffer.length ≤ buffer.length := by simp

/-- The whole of a buffer, as it is queued. -/
def wholeBuffer (buffer : Bytes) : QueuedBuffer := ⟨buffer, 0, buffer.length, zero_add_length_le buffer⟩

@[simp] theorem bytes_wholeBuffer (buffer : Bytes) : (wholeBuffer buffer).bytes = buffer := by
  show (buffer.drop 0).take buffer.length = buffer
  rw [drop_zero, take_length]

theorem queueWrite_eq_some {s' : SocketIo} (h : s.queueWrite buffer = some s') :
    s' = s.push (wholeBuffer buffer) ∧ s.out.length < outQueuePackets := by
  unfold SocketIo.queueWrite at h
  split at h
  · cases h
  next hroom =>
    exact ⟨(Option.some.inj h).symm, Nat.lt_of_not_le hroom⟩

/-- A buffer goes to the end of the queue, is held back when the queue is full, and is dropped when the write side is
closed. -/
inductive Admission (s : SocketIo) (buffer : Bytes) : Handled → Prop where
  | closed (hclosed : s.isWriteClosed = true) : Admission s buffer ⟨some s, [], [], [], []⟩
  | queued (hopen : s.isWriteClosed = false) (b : QueuedBuffer) (hb : b.bytes = buffer)
      (hroom : s.out.length < outQueuePackets) : Admission s buffer ⟨some (s.push b), [], [], [], []⟩
  | held (hopen : s.isWriteClosed = false) (hfull : outQueuePackets ≤ s.out.length) :
      Admission s buffer ⟨some s, [buffer], [], [], []⟩

theorem admission_admitData (s : SocketIo) (buffer : Bytes) : Admission s buffer (admitData (some s) buffer) := by
  unfold admitData SocketIo.queueWrite
  dsimp only
  cases hcl : s.isWriteClosed with
  | true => exact .closed hcl
  | false =>
    by_cases hfull : outQueuePackets ≤ s.out.length
    · simp only [hfull, if_true]
      exact .held hcl hfull
    · simp only [hfull, if_false]
      exact .queued hcl (wholeBuffer buffer) (bytes_wholeBuffer buffer) (Nat.lt_of_not_le hfull)

theorem admission_admitDataSpan (s : SocketIo) {header : Bytes} (hne : ¬buffer.length = 0)
    (hlim : ¬maxDataPacket < buffer.length) (fits : header.length + buffer.length ≤ (header ++ buffer).length) :
    Admission s buffer (admitDataSpan (some s) (header ++ buffer) header.length buffer.length fits) := by
  have hspan : ((header ++ buffer).drop header.length).take buffer.length = buffer := by rw [drop_left, take_length]
  unfold admitDataSpan SocketIo.queueWriteSpan
  dsimp only
  rw [beq_false_of_ne hne, Bool.or_false, if_neg hlim, hspan]
  cases hcl : s.isWriteClosed with
  | true => exact .closed hcl
  | false =>
    by_cases hfull : outQueuePackets ≤ s.out.length
    · simp only [hne, hfull, or_true, if_true, if_false]
      exact .held hcl hfull
    · simp only [hne, hlim, hfull, or_self, if_false]
      exact .queued hcl ⟨header ++ buffer, header.length, buffer.length, fits⟩ hspan (Nat.lt_of_not_le hfull)

/-- Neither an error nor a close of the side that receives it. -/
structure PortForwardData.Open (role : Role) (d : PortForwardData) : Prop where
  error : d.error = none
  halfClose : (role == .destination && d.halfClose.getD false) = false
  closed : d.closed.getD false = false

/-- What a packet does to a socket, after the credit in it. -/
inductive Reception (role : Role) (socketId : Int) (s : SocketIo) (d : PortForwardData) : Handled → Prop where
  | dropped (hdrop : d.error ≠ none ∨ d.Open role ∧ maxDataPacket < (d.buffer.getD []).length) :
      Reception role socketId s d ⟨none, [], [], [], []⟩
  | halfClosed (herr : d.error = none) (hhalf : (role == .destination && d.halfClose.getD false) = true) :
      Reception role socketId s d (peerHalfClose (some s))
  | closed (herr : d.error = none) (hclosed : d.closed.getD false = true) :
      Reception role socketId s d (peerClosed role socketId (some s))
  | empty (hopen : d.Open role) (hemp : d.buffer.getD [] = []) : Reception role socketId s d ⟨some s, [], [], [], []⟩
  | admitted {r : Handled} (hopen : d.Open role) (hne : d.buffer.getD [] ≠ [])
      (hlim : ¬maxDataPacket < (d.buffer.getD []).length) (hadm : Admission s (d.buffer.getD []) r) :
      Reception role socketId s d r

/-- Credit does not concern the queue. -/
theorem applyWindow_some (s : SocketIo) (delivered : Option FlowWindow) :
    ∃ s₁, applyWindow (some s) delivered = some s₁ ∧ s₁.out = s.out ∧ s₁.outOffset = s.outOffset ∧
      s₁.isWriteClosed = s.isWriteClosed ∧ s₁.writeClosed = s.writeClosed := by
  cases delivered with
  | none => exact ⟨s, rfl, rfl, rfl, rfl, rfl⟩
  | some delivered => exact ⟨_, rfl, rfl, rfl, rfl, rfl⟩

theorem receiveData_cases (role : Role) (socketId : Int) (s : SocketIo) (d : PortForwardData) :
    ∃ s₁, applyWindow (some s) (decodeWindow d.window) = some s₁ ∧
      Reception role socketId s₁ d (receiveData role socketId (some s) d) := by
  obtain ⟨s₁, hs₁, -⟩ := applyWindow_some s (decodeWindow d.window)
  refine ⟨s₁, hs₁, ?_⟩
  unfold receiveData
  simp only [hs₁]
  split
  next herr => exact .dropped (.inl (Option.isSome_iff_ne_none.mp herr))
  rename_i herr
  rw [Option.not_isSome_iff_eq_none] at herr
  split
  next hcred =>
    simp only [Bool.and_eq_true, Bool.not_eq_true', List.isEmpty_iff] at hcred
    obtain ⟨⟨⟨-, hemp⟩, hcl⟩, hhalf⟩ := hcred
    exact .empty ⟨herr, by rw [hhalf, Bool.and_false], hcl⟩ hemp
  split
  next hhalf => exact .halfClosed herr hhalf
  rename_i hhalf
  split
  next hcl => exact .closed herr hcl
  rename_i hcl
  have hopen : d.Open role := ⟨herr, Bool.eq_false_iff.mpr hhalf, Bool.eq_false_iff.mpr hcl⟩
  split
  next hemp => exact .empty hopen (List.isEmpty_iff.mp hemp)
  rename_i hemp
  split
  next hlim => exact .dropped (.inr ⟨hopen, hlim⟩)
  next hlim => exact .admitted hopen (fun hnil => hemp (List.isEmpty_iff.mpr hnil)) hlim (admission_admitData s₁ _)

/-- **What a data packet does**, on either path. -/
theorem handleData_cases (role : Role) (socketId : Int) (header : Option Bytes) (s : SocketIo) (d : PortForwardData) :
    ∃ s₁, applyWindow (some s) (decodeWindow d.window) = some s₁ ∧
      Reception role socketId s₁ d (handleData role socketId header (some s) d) := by
  have hslow := receiveData_cases role socketId s d
  unfold handleData
  split
  next header buffer hbuf =>
    split
    next hplain =>
      simp only [Bool.and_eq_true, Option.isNone_iff_eq_none] at hplain
      obtain ⟨⟨⟨herr, hclosed⟩, hhalf⟩, hwin⟩ := hplain
      have hopen : d.Open role := ⟨herr, by rw [hhalf, Option.getD_none, Bool.and_false], by rw [hclosed, Option.getD_none]⟩
      have hget : d.buffer.getD [] = buffer := by rw [hbuf, Option.getD_some]
      refine ⟨s, by rw [hwin]; rfl, ?_⟩
      split
      next hemp => exact .empty hopen (hget.trans (length_eq_zero_iff.mp hemp))
      next hne =>
        split
        next hlim => exact .dropped (.inr ⟨hopen, hget ▸ hlim⟩)
        next hlim =>
          refine .admitted hopen ?_ ?_ ?_ <;> rw [hget]
          · exact fun hnil => hne (length_eq_zero_iff.mpr hnil)
          · exact hlim
          · exact admission_admitDataSpan s hne hlim _
    · exact hslow
  · exact hslow

/-- A packet without an error, within the limit, drops a socket only by a close, and only an empty one. -/
theorem handleData_dropped {role : Role} {socketId : Int} {header : Option Bytes} (herr : d.error = none)
    (hlim : (d.buffer.getD []).length ≤ maxDataPacket)
    (hnone : (handleData role socketId header (some s) d).socket = none) : d.closed.getD false = true ∧ s.out = [] := by
  obtain ⟨s₁, hs₁, hcases⟩ := handleData_cases role socketId header s d
  obtain ⟨_, hsame, hout, -⟩ := applyWindow_some s (decodeWindow d.window)
  cases hs₁.symm.trans hsame
  generalize handleData role socketId header (some s) d = r at hcases hnone
  cases hcases with
  | dropped hdrop => exact absurd (hdrop.resolve_left (· herr)).2 (Nat.not_lt.mpr hlim)
  | halfClosed =>
    unfold peerHalfClose at hnone
    dsimp only at hnone
    split at hnone <;> cases hnone
  | closed _ hclosed =>
    unfold peerClosed at hnone
    dsimp only at hnone
    split at hnone
    next hemp => exact ⟨hclosed, hout ▸ List.isEmpty_iff.mp hemp⟩
    · cases hnone
  | empty => cases hnone
  | admitted _ _ _ hadm => cases hadm <;> cases hnone

/-- A packet for a socket that is gone is ignored. -/
theorem handleData_none (role : Role) (socketId : Int) (header : Option Bytes) (d : PortForwardData) :
    handleData role socketId header none d = ⟨none, [], [], [], []⟩ := by
  have hwin : applyWindow none (decodeWindow d.window) = none := by
    cases decodeWindow d.window <;> rfl
  have hslow : receiveData role socketId none d = ⟨none, [], [], [], []⟩ := by
    unfold receiveData
    simp only [hwin, peerHalfClose, peerClosed, admitData, ite_self]
  unfold handleData
  repeat' split
  all_goals first | rfl | exact hslow

namespace SocketIo

theorem readTurns_drop {split : Option (Nat × Nat)} {reads : Nat} {turns : List ReadTurn}
    (h : (s.readTurns split reads turns).1 = some .drop) :
    ∃ d ∈ (s.readTurns split reads turns).2.2, d.error.isSome = true := by
  induction turns generalizing s split reads with
  | nil => cases h
  | cons turn turns ih =>
    rw [readTurns] at h ⊢
    split at h
    next hgd =>
      rw [if_pos hgd]
      split at h
      · dsimp only at h ⊢
        split at h
        · cases h
        next hlong =>
          rw [if_neg hlong]
          obtain ⟨d, hd, herr⟩ := ih h
          exact ⟨d, mem_cons_of_mem _ hd, herr⟩
      · cases h
      · cases h
      · exact ⟨_, mem_singleton_self _, rfl⟩
    · cases h

/-- A socket that is dropped without an error has nothing queued. -/
theorem serviceSocket_drop {event : ReadySocket} {writes : List WriteResult} {turns : List ReadTurn}
    (h : (s.serviceSocket event writes turns).1 = .drop) :
    (∃ d ∈ (s.serviceSocket event writes turns).2.2.1, d.error.isSome = true) ∨
      (s.serviceSocket event writes turns).2.1.out = [] := by
  unfold serviceSocket at h ⊢
  generalize (if event.writable || (event.error && s.writeInterest) then s.flushOut writes else (.ok (), s, [])) =
    flush at h ⊢
  obtain ⟨result, s₁, written⟩ := flush
  cases result with
  | error error => exact .inl ⟨_, mem_singleton_self _, rfl⟩
  | ok _ =>
    dsimp only at h ⊢
    generalize (if s₁.out.isEmpty then s₁.shutdownDrained else s₁) = s₂ at h ⊢
    split at h
    next hdr =>
      rw [if_pos hdr]
      rw [Bool.and_eq_true, List.isEmpty_iff] at hdr
      exact .inr hdr.1
    next hopen =>
      rw [if_neg hopen]
      split at h
      next herr =>
        rw [if_pos herr]
        exact .inl ⟨_, mem_singleton_self _, rfl⟩
      next herr =>
        rw [if_neg herr]
        have hdrop : (if event.readable then s₂.readTurns none 0 turns else (none, s₂, [])).1 = some .drop →
            ∃ d ∈ (if event.readable then s₂.readTurns none 0 turns else (none, s₂, [])).2.2, d.error.isSome = true := by
          split
          · exact readTurns_drop
          · exact nofun
        generalize (if event.readable then s₂.readTurns none 0 turns else (none, s₂, [])) = result at h hdrop ⊢
        obtain ⟨verdict, s₃, emitted⟩ := result
        cases verdict with
        | some verdict => exact .inl (hdrop (congrArg some h))
        | none =>
          dsimp only at h ⊢
          split at h
          next hdr =>
            rw [Bool.and_eq_true, List.isEmpty_iff] at hdr
            exact .inr hdr.2
          · cases h

end SocketIo
end

end EternalTerminal
