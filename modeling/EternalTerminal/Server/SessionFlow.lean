import EternalTerminal.Core.OutputLanes
import EternalTerminal.Net.ConnectionWrites

/-!
# Server — the output of a session

`FlowControl`: the output queue of a session with the state its one writer goes by, and the writer on Unix,
`OutputPump`, which starts a frame when the transport has room and advances it without blocking.  A packet is
handed to the replay writer when its frame is started; a packet whose frame is partly on the wire stays with the
pump, and goes back to the queue's state as a live packet when the pump is dropped.

What the transport answers, and what other users of the connection do to it, is an argument.  Notifications of
the condition variable change no state and are left out; a thread in `pause` returns in a step of its own.
Interrupts (`observe_input`, `discard_drained_terminal`) are not part of these runs.
-/

namespace EternalTerminal
open Machine OutputQueue

def terminalExitStatus : UInt8 := 12
def flowControlBufferBytes : Nat := 64 * 1024
def connectedOutputBytes : Nat := 2 * 1024 * 1024
def connectedLaneBytes : Nat := connectedOutputBytes / 2
def connectedTerminalReadAhead : Nat := 256 * 1024
def disconnectedOutputBytes : Nat := 64 * 1024 * 1024

/-- Whether the output is stopped. -/
inductive StopMode where
  | running
  | graceful
  | hard
  deriving DecidableEq

/-- Refusals the bridge is waiting on. -/
structure BridgeWait where
  terminal : Bool
  control : Bool
  drain : Bool

/-- `SessionError::Unavailable`, and the connection errors that a refused packet comes back with. -/
inductive SessionError where
  | unavailable
  | backpressure
  | packetTooLarge
  deriving DecidableEq

/-- What a write of the pump comes to. -/
inductive FlowWriteResult where
  | delivered
  | beforeReplay
  | replayOwned
  | fatal
  deriving DecidableEq

/-- `session_flow.rs`: the queue and what its writer goes by. -/
structure WriterState where
  queue : OutputQueue
  connected : Bool
  paused : Bool
  inFlight : Bool
  pendingLiveInFlight : Option Packet
  bridgeWaiting : BridgeWait
  stop : StopMode
  unrecoverable : Bool
  defaultBuffering : Bool

namespace WriterState

def withLimit (mode : FlowControlMode) (limit : Nat) : WriterState where
  queue := .new mode limit
  connected := true
  paused := false
  inFlight := false
  pendingLiveInFlight := none
  bridgeWaiting := ⟨false, false, false⟩
  stop := .running
  unrecoverable := false
  defaultBuffering := limit == connectedLaneBytes

def new (mode : FlowControlMode) : WriterState := withLimit mode flowControlBufferBytes

/-- The limit of a lane follows the connection. -/
def setConnected (state : WriterState) (connected : Bool) : WriterState :=
  let state := { state with connected := connected }
  if state.defaultBuffering then
    { state with
      queue := state.queue.setLimit (if connected then connectedLaneBytes else disconnectedOutputBytes) }
  else state

def waitForLane (state : WriterState) (packet : Packet) : WriterState :=
  if isTerminalOutput packet then
    { state with bridgeWaiting := { state.bridgeWaiting with terminal := true } }
  else { state with bridgeWaiting := { state.bridgeWaiting with control := true } }

def terminalReadAhead (state : WriterState) : Option Nat :=
  if state.defaultBuffering && state.connected then some connectedTerminalReadAhead else none

/-- Clear the waits whose refusal has cleared, and say whether one did. -/
def takeReadyBridgeWait (state : WriterState) : Bool × WriterState :=
  let resumeBytes := max (state.queue.limit / 2) (32 * 1024)
  let drained := state.queue.isEmpty
  let terminal := state.bridgeWaiting.terminal && (drained ||
    (state.queue.canResume .terminal resumeBytes &&
      state.terminalReadAhead.all fun ahead => decide (state.queue.terminalBytes ≤ ahead / 2)))
  let control := state.bridgeWaiting.control && (drained || state.queue.canResume .control resumeBytes)
  let drain := state.bridgeWaiting.drain && drained
  (terminal || control || drain, { state with
      bridgeWaiting :=
        { terminal := state.bridgeWaiting.terminal && !terminal
          control := state.bridgeWaiting.control && !control
          drain := state.bridgeWaiting.drain && !drain } })

/-- A packet is pushed, or comes back with the reason. -/
def enqueueOwned (state : WriterState) (packet : Packet) :
    Option (Except (Packet × SessionError) Unit × WriterState) :=
  if state.stop ≠ .running then some (.error (packet, .unavailable), state)
  else if packet.header = terminalExitStatus ∧ (state.inFlight = true ∨ state.queue.isEmpty = false) then
    -- the client may exit as soon as it sees the status
    some (.error (packet, .backpressure), { state with bridgeWaiting := { state.bridgeWaiting with drain := true } })
  else do
    let (result, queue) ← state.queue.push packet
    let state := { state with queue := queue }
    match result with
    | .ok () => return (.ok (), state)
    | .error (.full packet) => return (.error (packet, .backpressure), state.waitForLane packet)
    | .error (.oversized packet) => return (.error (packet, .packetTooLarge), state)

def pause (state : WriterState) : WriterState := { state with paused := true }

/-- A graceful stop that loses its connection cannot drain. -/
def failGraceful (state : WriterState) : WriterState :=
  if state.stop = .graceful then { state with unrecoverable := true, stop := .hard } else state

/-- A recovery has ended. -/
def resume (state : WriterState) (connected : Bool) : WriterState :=
  let state := { state.setConnected connected with paused := false }
  if connected then state else state.failGraceful

def disconnected (state : WriterState) : WriterState := state.setConnected false

/-- The output ends when it has drained, if it can. -/
def stopGracefully (state : WriterState) : WriterState :=
  if state.stop = .running then
    if state.connected || state.paused then { state with stop := .graceful }
    else { state with unrecoverable := true, stop := .hard }
  else state

def stopHard (state : WriterState) : WriterState := { state with stop := .hard }

/-- The pump has nothing to do. -/
def writerMustWait (state : WriterState) : Bool :=
  match state.stop with
  | .hard => false
  | .graceful =>
    state.paused ||
      (!state.connected && (!state.queue.isEmpty || state.pendingLiveInFlight.isSome)) ||
      (state.queue.isEmpty && state.pendingLiveInFlight.isNone && state.inFlight)
  | .running =>
    state.paused || !state.connected || (state.queue.isEmpty && state.pendingLiveInFlight.isNone)

/-- The next packet to write, and whether its frame is partly on the wire already. -/
def takeItem (state : WriterState) (terminal : Bool) : Option (Option (Packet × Bool) × WriterState) :=
  if state.stop = .hard then some (none, state)
  else if state.stop = .graceful ∧ state.queue.isEmpty = true ∧ state.pendingLiveInFlight = none then
    some (none, state)
  else
    match state.pendingLiveInFlight with
    | some packet => some (some (packet, true), { state with pendingLiveInFlight := none, inFlight := true })
    | none =>
      (if terminal then state.queue.take else some state.queue.takeControl).map fun
        | (none, queue) => (none, { state with queue := queue })
        | (some packet, queue) => (some (packet, false), { state with queue := queue, inFlight := true })

def tryNextItem (state : WriterState) (terminal : Bool) : Option (Option (Packet × Bool) × WriterState) :=
  if state.writerMustWait then some (none, state) else state.takeItem terminal

/-- The pump is dropped with a started frame. -/
def handBackLive (state : WriterState) (packet : Packet) : WriterState :=
  { state with pendingLiveInFlight := some packet, inFlight := false }

/-- A packet was not started. -/
def returnUnstarted (state : WriterState) (packet : Packet) : WriterState :=
  { state with inFlight := false, queue := state.queue.restoreFront packet }

/-- The queue and the stop mode after a write; the match of `complete_with_signal`. -/
def applyResult (state : WriterState) (packet : Packet) (result : FlowWriteResult) (connected : Bool) :
    Option WriterState :=
  match result with
  | .delivered =>
    (state.queue.complete packet).map fun queue =>
      let state := { state with queue := queue }
      if connected then state else state.failGraceful
  | .beforeReplay =>
    some ({ state with queue := state.queue.restoreFront packet }.setConnected false).failGraceful
  | .replayOwned =>
    (state.queue.complete packet).map fun queue =>
      ({ state with queue := queue }.setConnected false).failGraceful
  | .fatal => (state.queue.complete packet).map fun queue => { state with queue := queue, stop := .hard }

/-- Whether the writer keeps running, and whether the bridge must look again. -/
def completeWithSignal (state : WriterState) (packet : Packet) (result : FlowWriteResult) (connected : Bool) :
    Option ((Bool × Bool) × WriterState) := do
  let state ← ({ state with inFlight := false }.setConnected connected).applyResult packet result connected
  let (ready, state) := state.takeReadyBridgeWait
  return ((decide (state.stop ≠ .hard),
    ready || !connected || decide (result ≠ .delivered) || decide (state.stop = .hard)), state)

end WriterState

/-! ### The transport -/

/-- How one nonblocking send of the live frame went. -/
inductive LiveSend where
  | finished
  | partly
  | failed

/-- A connection, with the packets of the output that its replay writer took. -/
structure LiveConnection where
  writer : BackedWriter
  /-- A frame is partly on the wire. -/
  pendingLive : Bool
  replayed : List Packet

/-- What the transport answers to one call of `write_nonblocking`. -/
structure WriteAnswer where
  room : Bool
  /-- Queued output has waited for room for a whole live-write timeout. -/
  late : Bool
  /-- The frame cannot be prepared, before the replay writer has the packet. -/
  refused : Option WriteError
  step : LiveSend

/-- What a turn of a write comes to. -/
inductive NonblockingWrite where
  | pending
  | noRoom
  | done (result : FlowWriteResult) (connected : Bool)

def NonblockingWrite.isFatal : NonblockingWrite → Bool
  | .done .fatal _ => true
  | _ => false

namespace LiveConnection

def disconnect (c : LiveConnection) : LiveConnection :=
  { c with pendingLive := false, writer := c.writer.invalidate }

def advanceWrite (c : LiveConnection) (step : LiveSend) : Except WritePacketError Bool × LiveConnection :=
  if c.pendingLive then
    match step with
    | .finished => (.ok true, { c with pendingLive := false })
    | .partly => (.ok false, c)
    | .failed => (.error (.replayOwned .io), c.disconnect)
  else (.ok true, c)

/-- `start_write_packet_owned_unprobed`, with whether nothing of the frame is left. -/
def startWritePacket (S : Sodium) (c : LiveConnection) (packet : Packet) (answer : WriteAnswer) :
    Except WritePacketError Bool × LiveConnection :=
  if c.pendingLive then (.error (.beforeReplay .backpressure), c)
  else
    match answer.refused with
    | some error => (.error (.beforeReplay error), c)
    | none =>
      match c.writer.writePacket S packet.header packet.payload with
      | (.skipped, writer) => (.error (.beforeReplay .backpressure), { c with writer := writer })
      | (.bufferedOnly, writer) => (.ok true, { c with writer := writer, replayed := c.replayed ++ [packet] })
      | (.send _, writer) =>
        { c with writer := writer, pendingLive := true, replayed := c.replayed ++ [packet] }.advanceWrite
          answer.step

def writeNonblocking (S : Sodium) (c : LiveConnection) (hardStopped : Bool) (packet : Packet) (started : Bool)
    (answer : WriteAnswer) : NonblockingWrite × LiveConnection :=
  if hardStopped then (.done .fatal false, c)
  else if !started && !answer.room && !answer.late then (.noRoom, c)
  else
    let (step, c) := if started then c.advanceWrite answer.step else c.startWritePacket S packet answer
    let failed (result : FlowWriteResult) : NonblockingWrite × LiveConnection :=
      (.done result c.disconnect.writer.connected, c.disconnect)
    match step with
    | .ok true => (.done .delivered c.writer.connected, c)
    | .ok false => if c.pendingLive then (.pending, c) else (.done .delivered c.writer.connected, c)
    | .error (.beforeReplay .io) => failed .beforeReplay
    | .error (.beforeReplay _) => failed .fatal
    | .error (.replayOwned _) => failed .replayOwned

end LiveConnection

/-! ### The system -/

/-- A session's output: its state, the connection, and the packet the pump has, with whether its frame is started. 
`accepted` are the packets `enqueue_owned` took, `promoted` whether a promotion rewrote the terminal lane. -/
structure FlowRun where
  state : WriterState
  connection : LiveConnection
  held : Option (Packet × Bool)
  /-- The threads in `pause`. -/
  pausing : Nat
  accepted : List Packet
  promoted : Bool

/-- A step of a thread or of the pump. -/
inductive FlowEvent where
  | enqueue (packet : Packet)
  | take (terminal : Bool)
  | write (answer : WriteAnswer)
  | dropPump
  | pause
  | pauseReturns
  | resume (connected : Bool)
  | disconnected
  | stopGracefully
  | stopHard
  /-- Other users of the connection: acknowledgements, recoveries, writers that finish a live frame. -/
  | elsewhere (writer : BackedWriter) (finishes : Bool)

namespace FlowRun

def start (state : WriterState) (writer : BackedWriter) : FlowRun where
  state := state
  connection := ⟨writer, false, []⟩
  held := none
  pausing := 0
  accepted := []
  promoted := false

/-- The packet in flight that the replay writer does not have yet. -/
def unstarted (s : FlowRun) : List Packet :=
  match s.held with
  | some (packet, false) => [packet]
  | _ => []

/-- The pump has the item that it took. -/
def taken (s : FlowRun) (terminal : Bool) (item : Option (Packet × Bool) × WriterState) : FlowRun :=
  { s with
    state := item.2
    held := item.1
    promoted := s.promoted ||
      (terminal && decide (s.state.stop ≠ .hard) && s.state.pendingLiveInFlight.isNone &&
        s.state.queue.promotes) }

/-- The write of `OutputPump::run`, with what came of it. -/
def write (S : Sodium) (s : FlowRun) (packet : Packet) (started : Bool) (answer : WriteAnswer) :
    Option (NonblockingWrite × FlowRun) :=
  let (outcome, connection) :=
    s.connection.writeNonblocking S (decide (s.state.stop = .hard)) packet started answer
  let s := { s with connection := connection }
  match outcome with
  | .pending => some (outcome, { s with held := some (packet, true) })
  | .noRoom => some (outcome, { s with held := none, state := s.state.returnUnstarted packet })
  | .done result connected =>
    (s.state.completeWithSignal packet result connected).map fun r =>
      (outcome, { s with held := none, state := r.2 })

/-- `none` where the code would panic, and for an event that cannot happen: the pump takes a packet when it has
none, and writes the one it has; it is dropped between two calls of `run`, when it may have a live packet only;
`pause` returns when nothing is in flight. -/
def apply (S : Sodium) (s : FlowRun) : FlowEvent → Option FlowRun
  | .enqueue packet =>
    (s.state.enqueueOwned packet).map fun r =>
      { s with state := r.2, accepted := s.accepted ++ if r.1 = .ok () then [packet] else [] }
  | .take terminal =>
    if s.held.isSome then none
    else (s.state.takeItem terminal).map (s.taken terminal)
  | .write answer =>
    match s.held with
    | none => none
    | some (packet, started) => (s.write S packet started answer).map Prod.snd
  | .dropPump =>
    match s.held with
    | none => some s
    | some (packet, true) => some { s with held := none, state := s.state.handBackLive packet }
    | some (_, false) => none
  | .pause => some { s with state := s.state.pause, pausing := s.pausing + 1 }
  | .pauseReturns =>
    if 0 < s.pausing ∧ s.state.inFlight = false then some { s with pausing := s.pausing - 1 } else none
  | .resume connected => some { s with state := s.state.resume connected }
  | .disconnected => some { s with state := s.state.disconnected }
  | .stopGracefully => some { s with state := s.state.stopGracefully }
  | .stopHard => some { s with state := s.state.stopHard }
  | .elsewhere writer finishes =>
    some { s with
      connection := { s.connection with
        writer := writer
        pendingLive := s.connection.pendingLive && !finishes } }

/-- No write is fatal. -/
def Unfailing (S : Sodium) (s : FlowRun) : FlowEvent → Bool
  | .write answer =>
    s.held.all fun h =>
      !(s.connection.writeNonblocking S (decide (s.state.stop = .hard)) h.1 h.2 answer).1.isFatal
  | _ => true

end FlowRun

/-- One step whose write is not fatal. -/
inductive FlowStep (S : Sodium) : FlowRun → FlowRun → Prop where
  | step (s : FlowRun) (e : FlowEvent) (s' : FlowRun) (hunfailing : s.Unfailing S e = true)
      (h : s.apply S e = some s') : FlowStep S s s'

/-! ### What the calls do -/

theorem OutputQueue.complete_setLimit (q : OutputQueue) (limit : Nat) (packet : Packet) :
    (q.setLimit limit).complete packet = (q.complete packet).map (setLimit · limit) := by
  unfold complete setLimit
  dsimp only
  split
  · cases checkedSub q.terminalBytes (packetCost packet) <;> cases checkedSub q.terminalPackets 1 <;> rfl
  · cases checkedSub q.controlBytes (packetCost packet) <;> cases checkedSub q.controlPackets 1 <;> rfl

theorem OutputQueue.restoreFront_setLimit (q : OutputQueue) (limit : Nat) (packet : Packet) :
    (q.setLimit limit).restoreFront packet = (q.restoreFront packet).setLimit limit := by
  unfold restoreFront setLimit
  split <;> rfl

/-- Nothing of the output has moved: the queue has another limit at most. -/
structure SameOutput (a b : WriterState) : Prop where
  queue : ∃ limit, b.queue = a.queue.setLimit limit
  inFlight : b.inFlight = a.inFlight
  pending : b.pendingLiveInFlight = a.pendingLiveInFlight

namespace SameOutput
variable (state : WriterState)

theorem of_eq {a b : WriterState} (hq : b.queue = a.queue) (hfly : b.inFlight = a.inFlight)
    (hpend : b.pendingLiveInFlight = a.pendingLiveInFlight) : SameOutput a b :=
  ⟨⟨a.queue.limit, hq⟩, hfly, hpend⟩

theorem trans {a b c : WriterState} (h : SameOutput a b) (h' : SameOutput b c) : SameOutput a c := by
  obtain ⟨⟨limit, hq⟩, hfly, hpend⟩ := h
  obtain ⟨⟨limit', hq'⟩, hfly', hpend'⟩ := h'
  refine ⟨⟨limit', ?_⟩, hfly'.trans hfly, hpend'.trans hpend⟩
  rw [hq', hq]
  rfl

theorem setConnected (connected : Bool) : SameOutput state (state.setConnected connected) := by
  unfold WriterState.setConnected
  dsimp only
  split
  · exact ⟨⟨_, rfl⟩, rfl, rfl⟩
  · exact .of_eq rfl rfl rfl

theorem failGraceful : SameOutput state state.failGraceful := by
  unfold WriterState.failGraceful
  split
  · exact .of_eq rfl rfl rfl
  · exact .of_eq rfl rfl rfl

theorem waitForLane (packet : Packet) : SameOutput state (state.waitForLane packet) := by
  unfold WriterState.waitForLane
  split
  · exact .of_eq rfl rfl rfl
  · exact .of_eq rfl rfl rfl

theorem resume (connected : Bool) : SameOutput state (state.resume connected) := by
  have h : SameOutput state { state.setConnected connected with paused := false } :=
    (setConnected state connected).trans (.of_eq rfl rfl rfl)
  unfold WriterState.resume
  dsimp only
  split
  · exact h
  · exact h.trans (failGraceful _)

theorem stopGracefully : SameOutput state state.stopGracefully := by
  unfold WriterState.stopGracefully
  split
  · split
    · exact .of_eq rfl rfl rfl
    · exact .of_eq rfl rfl rfl
  · exact .of_eq rfl rfl rfl

theorem takeReadyBridgeWait : SameOutput state state.takeReadyBridgeWait.2 :=
  .of_eq rfl rfl rfl

end SameOutput

namespace WriterState
variable {state state' : WriterState} {packet : Packet}

/-- The packet is refused before the queue sees it, or pushed; an exit status is pushed to an empty queue with
nothing in flight. -/
theorem enqueueOwned_cases {r : Except (Packet × SessionError) Unit}
    (h : state.enqueueOwned packet = some (r, state')) :
    (r ≠ .ok () ∧ SameOutput state state') ∨
      ∃ result queue, state.queue.push packet = some (result, queue) ∧ (r = .ok () ↔ result = .ok ()) ∧
        SameOutput { state with queue := queue } state' ∧
        (packet.header = terminalExitStatus → state.inFlight = false ∧ state.queue.isEmpty = true) := by
  unfold enqueueOwned at h
  split at h
  · cases h
    exact .inl ⟨by nofun, .of_eq rfl rfl rfl⟩
  split at h
  · cases h
    exact .inl ⟨by nofun, .of_eq rfl rfl rfl⟩
  rename_i hexit
  have hexit' : packet.header = terminalExitStatus → state.inFlight = false ∧ state.queue.isEmpty = true := by
    intro hhd
    simpa [hhd] using hexit
  obtain ⟨⟨result, queue⟩, hpush, h⟩ := Option.bind_eq_some_iff.mp h
  refine .inr ⟨result, queue, hpush, ?_⟩
  dsimp only at h
  split at h
  · cases h
    exact ⟨by simp, .of_eq rfl rfl rfl, hexit'⟩
  · cases h
    exact ⟨by simp, .waitForLane _ _, hexit'⟩
  · cases h
    exact ⟨by simp, .of_eq rfl rfl rfl, hexit'⟩

variable {terminal connected : Bool} {result : FlowWriteResult}

/-- The live packet goes first; else a packet leaves the queue, unless there is none to write. -/
theorem takeItem_cases {item : Option (Packet × Bool)} (h : state.takeItem terminal = some (item, state')) :
    (item = none ∧ state' = state) ∨
      (∃ packet, state.pendingLiveInFlight = some packet ∧ item = some (packet, true) ∧
        state' = { state with pendingLiveInFlight := none, inFlight := true }) ∨
      (state.stop ≠ .hard ∧ state.pendingLiveInFlight = none ∧ ∃ packet queue,
        (if terminal then state.queue.take else some state.queue.takeControl) = some (packet, queue) ∧
        item = packet.map (·, false) ∧
        state' = { state with queue := queue, inFlight := state.inFlight || packet.isSome }) := by
  unfold takeItem at h
  split at h
  · cases h
    exact .inl ⟨rfl, rfl⟩
  rename_i hstop
  split at h
  · cases h
    exact .inl ⟨rfl, rfl⟩
  split at h
  next packet hpend =>
    cases h
    exact .inr (.inl ⟨packet, hpend, rfl, rfl⟩)
  rename_i hpend
  obtain ⟨⟨packet, queue⟩, htake, h⟩ := Option.map_eq_some_iff.mp h
  refine .inr (.inr ⟨hstop, hpend, packet, queue, htake, ?_⟩)
  cases packet with
  | none =>
    cases h
    exact ⟨rfl, by simp⟩
  | some packet =>
    cases h
    exact ⟨rfl, by simp⟩

/-- A packet that was written is completed, unless the replay writer does not have it. -/
theorem applyResult_cases (hres : result ≠ .fatal) (h : state.applyResult packet result connected = some state') :
    (result = .beforeReplay ∧ SameOutput { state with queue := state.queue.restoreFront packet } state') ∨
      (result ≠ .beforeReplay ∧ ∃ queue, state.queue.complete packet = some queue ∧
        SameOutput { state with queue := queue } state') := by
  cases result with
  | delivered =>
    obtain ⟨queue, hcomp, rfl⟩ := Option.map_eq_some_iff.mp h
    refine .inr ⟨by simp, queue, hcomp, ?_⟩
    dsimp only
    split
    · exact .of_eq rfl rfl rfl
    · exact .failGraceful _
  | beforeReplay =>
    cases h
    exact .inl ⟨rfl, (SameOutput.setConnected _ false).trans (.failGraceful _)⟩
  | replayOwned =>
    obtain ⟨queue, hcomp, rfl⟩ := Option.map_eq_some_iff.mp h
    exact .inr ⟨by simp, queue, hcomp, (SameOutput.setConnected _ false).trans (.failGraceful _)⟩
  | fatal => exact absurd rfl hres

theorem completeWithSignal_cases {signal : Bool × Bool}
    (hres : result ≠ .fatal) (h : state.completeWithSignal packet result connected = some (signal, state')) :
    (result = .beforeReplay ∧
        SameOutput { state with inFlight := false, queue := state.queue.restoreFront packet } state') ∨
      (result ≠ .beforeReplay ∧ ∃ queue, state.queue.complete packet = some queue ∧
        SameOutput { state with inFlight := false, queue := queue } state') := by
  unfold completeWithSignal at h
  obtain ⟨after, hap, h⟩ := Option.bind_eq_some_iff.mp h
  cases h
  have hready := SameOutput.takeReadyBridgeWait after
  obtain ⟨⟨limit, hqueue⟩, hfly, hpend⟩ := SameOutput.setConnected { state with inFlight := false } connected
  generalize ({ state with inFlight := false } : WriterState).setConnected connected = settled at *
  rcases applyResult_cases hres hap with ⟨hres, hsame⟩ | ⟨hres, queue, hcomp, hsame⟩
  · refine .inl ⟨hres, SameOutput.trans (b := { settled with queue := settled.queue.restoreFront packet }) ?_
      (hsame.trans hready)⟩
    exact ⟨⟨limit, by rw [hqueue, restoreFront_setLimit]⟩, hfly, hpend⟩
  · rw [hqueue, complete_setLimit] at hcomp
    obtain ⟨q, hq, rfl⟩ := Option.map_eq_some_iff.mp hcomp
    refine .inr ⟨hres, q, hq, SameOutput.trans (b := { settled with queue := q.setLimit limit }) ?_
      (hsame.trans hready)⟩
    exact ⟨⟨limit, rfl⟩, hfly, hpend⟩

theorem enqueueOwned_isSome {r : Except QueuePushError Unit × OutputQueue} (h : state.queue.push packet = some r) :
    (state.enqueueOwned packet).isSome = true := by
  obtain ⟨result, queue⟩ := r
  unfold enqueueOwned
  split
  · rfl
  split
  · rfl
  rw [h]
  rcases result with (_ | _) | _ <;> rfl

theorem takeItem_isSome (h : state.pendingLiveInFlight = none → state.queue.take.isSome = true) :
    (state.takeItem terminal).isSome = true := by
  unfold takeItem
  split
  · rfl
  split
  · rfl
  split
  · rfl
  rename_i hpend
  cases terminal with
  | true => rw [if_pos rfl, Option.isSome_map, h hpend]
  | false => rfl

theorem completeWithSignal_isSome {queue : OutputQueue} (h : state.queue.complete packet = some queue)
    (result : FlowWriteResult) (connected : Bool) :
    (state.completeWithSignal packet result connected).isSome = true := by
  obtain ⟨⟨limit, hq⟩, -, -⟩ := SameOutput.setConnected { state with inFlight := false } connected
  have hcomp := complete_setLimit state.queue limit packet
  rw [h, Option.map_some] at hcomp
  unfold completeWithSignal applyResult
  cases result with
  | beforeReplay => rfl
  | delivered => rw [hq, hcomp]; rfl
  | replayOwned => rw [hq, hcomp]; rfl
  | fatal => rw [hq, hcomp]; rfl

end WriterState

namespace LiveConnection
variable {S : Sodium} {c c' : LiveConnection} {packet : Packet} {answer : WriteAnswer}

/-- A frame that is advanced belongs to the replay writer already. -/
theorem advanceWrite_cases {step : LiveSend} {result : Except WritePacketError Bool}
    (h : c.advanceWrite step = (result, c')) :
    (∀ error, result ≠ .error (.beforeReplay error)) ∧ c'.replayed = c.replayed := by
  unfold advanceWrite at h
  split at h
  · split at h
    · cases h
      exact ⟨nofun, rfl⟩
    · cases h
      exact ⟨nofun, rfl⟩
    · cases h
      exact ⟨nofun, rfl⟩
  · cases h
    exact ⟨nofun, rfl⟩

/-- The replay writer takes the packet, or the call fails before that. -/
theorem startWritePacket_cases {result : Except WritePacketError Bool}
    (h : c.startWritePacket S packet answer = (result, c')) :
    ((∃ error, result = .error (.beforeReplay error)) ∧ c'.replayed = c.replayed) ∨
      ((∀ error, result ≠ .error (.beforeReplay error)) ∧ c'.replayed = c.replayed ++ [packet]) := by
  unfold startWritePacket at h
  split at h
  · cases h
    exact .inl ⟨⟨_, rfl⟩, rfl⟩
  split at h
  · cases h
    exact .inl ⟨⟨_, rfl⟩, rfl⟩
  split at h
  · cases h
    exact .inl ⟨⟨_, rfl⟩, rfl⟩
  · cases h
    exact .inr ⟨nofun, rfl⟩
  · obtain ⟨hres, hrep⟩ := advanceWrite_cases h
    exact .inr ⟨hres, hrep⟩

/-- **The outcomes of a write** that is not fatal.  Where nothing was started the packet goes back to the queue;
else the replay writer has it, once. -/
theorem writeNonblocking_cases {hardStopped started : Bool} {outcome : NonblockingWrite}
    (h : c.writeNonblocking S hardStopped packet started answer = (outcome, c'))
    (hfatal : outcome.isFatal = false) :
    (started = false ∧ (outcome = .noRoom ∨ ∃ connected, outcome = .done .beforeReplay connected) ∧
        c'.replayed = c.replayed) ∨
      ((outcome = .pending ∨ ∃ result connected, outcome = .done result connected ∧ result ≠ .beforeReplay ∧
          result ≠ .fatal) ∧
        c'.replayed = c.replayed ++ if started then [] else [packet]) := by
  unfold writeNonblocking at h
  split at h
  · cases h
    exact absurd hfatal (by simp [NonblockingWrite.isFatal])
  split at h
  next hroom =>
    cases h
    exact .inl ⟨by simp at hroom; exact hroom.1.1, .inl rfl, rfl⟩
  -- what the connection answers, and what of the packet it keeps
  rcases hstep : (if started then c.advanceWrite answer.step else c.startWritePacket S packet answer) with
    ⟨step, after⟩
  have hcas : (started = false ∧ (∃ error, step = .error (.beforeReplay error)) ∧ after.replayed = c.replayed) ∨
      ((∀ error, step ≠ .error (.beforeReplay error)) ∧
        after.replayed = c.replayed ++ if started then [] else [packet]) := by
    cases started with
    | true =>
      obtain ⟨hres, hrep⟩ := advanceWrite_cases hstep
      exact .inr ⟨hres, by simpa using hrep⟩
    | false =>
      rcases startWritePacket_cases hstep with ⟨herr, hrep⟩ | ⟨hres, hrep⟩
      · exact .inl ⟨rfl, herr, hrep⟩
      · exact .inr ⟨hres, hrep⟩
  rw [hstep] at h
  dsimp only at h
  rcases hcas with ⟨hstarted, ⟨error, rfl⟩, hrep⟩ | ⟨hres, hrep⟩
  · cases error with
    | io =>
      cases h
      exact .inl ⟨hstarted, .inr ⟨_, rfl⟩, hrep⟩
    | backpressure =>
      cases h
      exact absurd hfatal (by simp [NonblockingWrite.isFatal])
    | encrypt =>
      cases h
      exact absurd hfatal (by simp [NonblockingWrite.isFatal])
  · refine .inr ?_
    split at h
    · cases h
      exact ⟨.inr ⟨_, _, rfl, by simp, by simp⟩, hrep⟩
    · split at h
      · cases h
        exact ⟨.inl rfl, hrep⟩
      · cases h
        exact ⟨.inr ⟨_, _, rfl, by simp, by simp⟩, hrep⟩
    · exact absurd rfl (hres _)
    · exact absurd rfl (hres _)
    · cases h
      exact ⟨.inr ⟨_, _, rfl, by simp, by simp⟩, hrep⟩

end LiveConnection

end EternalTerminal
