import EternalTerminal.Core.ControlLines
import EternalTerminal.Lib.History

/-!
# Client — the direct console

On Linux the client's session loop writes terminal output itself (`client_output.rs`): a packet goes straight to the
file when nothing is queued, and what the file does not take is queued; later writes take several queued packets at
once, as far as the file goes; an interrupt filters what is still unsent, in place.  The file may take any part of what
it is offered, or nothing for now.
-/

namespace EternalTerminal

def consoleOutputBytes : Nat := 64 * 1024
def consoleOutputPackets : Nat := 4096
def writeSlices : Nat := 64

/-- `FlowControlMode` of the command line. -/
inductive ClientFlowMode where
  | none
  | backpressure
  | discard
  deriving DecidableEq

def cursorReportRequest : Bytes := escape :: ascii "[6n"

def containsCursorReportRequest (bytes : Bytes) : Bool :=
  (bytes.dropWhile (· != escape)).tails.any cursorReportRequest.isPrefixOf

/-- A queued packet. -/
structure OutputEntry where
  bytes : Bytes
  /-- The part of `bytes` that was written. -/
  sent : Nat

def OutputEntry.unsent (entry : OutputEntry) : Bytes := entry.bytes.drop entry.sent

/-- Why the console failed. -/
inductive ConsoleError where
  | writeZero
  | invalidInput
  | brokenPipe
  | write
  deriving DecidableEq

/-- What the file does with a write. -/
inductive ConsoleAnswer where
  /-- It takes up to this many bytes. -/
  | takes (count : Nat)
  | again
  | failed
  deriving DecidableEq

/-- The state under the lock, with what the file has got. -/
structure ConsoleState where
  queue : List OutputEntry
  /-- Unsent queued bytes. -/
  bytes : Nat
  stopping : Bool
  error : Option ConsoleError
  cursorReports : Nat
  stream : TerminalStream
  skipUntilNewline : Bool
  waitingForCapacity : Bool
  written : Bytes

/-- The unsent bytes of a queue. -/
def unsentOf (queue : List OutputEntry) : Bytes := (queue.map OutputEntry.unsent).flatten

namespace ConsoleState

def new : ConsoleState := ⟨[], 0, false, none, 0, .default, false, false, []⟩

def unsent (s : ConsoleState) : Bytes := unsentOf s.queue

def fail (s : ConsoleState) (error : ConsoleError) : ConsoleState :=
  { s with error := some error, stopping := true, queue := [], bytes := 0 }

/-- `retire_delivered`, over the queue: what is left of it, and how many of the packets asked for a cursor report. -/
def retire : List OutputEntry → List OutputEntry × Nat
  | [] => ([], 0)
  | entry :: queue =>
    if entry.sent = entry.bytes.length then
      let (queue, reports) := retire queue
      (queue, (if containsCursorReportRequest entry.bytes then 1 else 0) + reports)
    else (entry :: queue, 0)

def retireDelivered (s : ConsoleState) : ConsoleState :=
  { s with queue := (retire s.queue).1, cursorReports := s.cursorReports + (retire s.queue).2 }

/-- The loop of `delivered`; every round retires an entry or is the last one. -/
def deliverLoop : Nat → ConsoleState → Nat → ConsoleState
  | 0, s, _ => s
  | fuel + 1, s, count =>
    match s.queue with
    | [] => s
    | entry :: queue =>
      if count = 0 then s
      else
        let stop := min entry.bytes.length (entry.sent + count)
        let written := (entry.bytes.take stop).drop entry.sent
        let s := { s with
          queue := { entry with sent := stop } :: queue
          stream := s.stream.observe written }
        deliverLoop fuel s.retireDelivered (count - written.length)

def delivered (s : ConsoleState) (count : Nat) : ConsoleState :=
  deliverLoop s.queue.length { s with bytes := s.bytes - count } count

/-- The end of `write_packet`. -/
def enqueue (s : ConsoleState) (bytes : Bytes) (sent : Nat) : ConsoleState :=
  { s with bytes := s.bytes + (bytes.length - sent), queue := s.queue ++ [⟨bytes, sent⟩] }

/-- `write_packet`. -/
def writePacket (s : ConsoleState) (answer : ConsoleAnswer) (bytes : Bytes) : ConsoleState :=
  if bytes = [] then s
  else if s.queue = [] then
    match answer with
    | .takes count =>
      let count := min count bytes.length
      if count = 0 then s.fail .writeZero
      else
        let s := { s with
          written := s.written ++ bytes.take count
          stream := s.stream.observe (bytes.take count) }
        if count = bytes.length then
          { s with cursorReports := s.cursorReports + if containsCursorReportRequest bytes then 1 else 0 }
        else s.enqueue bytes count
    | .again => s.enqueue bytes 0
    | .failed => s.fail .write
  else s.enqueue bytes 0

/-- `write_queued`, and whether any byte moved.  The file answers the writes of the loop in order, and takes nothing
more after the last answer. -/
def writeQueued (s : ConsoleState) : List ConsoleAnswer → Bool × ConsoleState
  | [] => (false, s)
  | answer :: answers =>
    if s.queue = [] then (false, s)
    else
      let offered := unsentOf (s.queue.take writeSlices)
      match answer with
      | .takes count =>
        let count := min count offered.length
        if count = 0 then (false, s.fail .writeZero)
        else
          let s := { s with written := s.written ++ offered.take count }.delivered count
          -- a short write means that the console is full
          if count < offered.length then (true, s)
          else (true, (s.writeQueued answers).2)
      | .again => (false, s)
      | .failed => (false, s.fail .write)

/-- The loop of `Discard`: the oldest entries go, but for one that is partly on the console. -/
def makeRoom : Nat → ConsoleState → Nat → ConsoleState
  | 0, s, _ => s
  | fuel + 1, s, len =>
    if s.bytes + len > consoleOutputBytes ∨ s.queue.length ≥ consoleOutputPackets then
      let oldest := if s.queue.head?.any (·.sent != 0) then 1 else 0
      match s.queue[oldest]? with
      | none => s
      | some removed =>
        makeRoom fuel
          { s with queue := s.queue.eraseIdx oldest, bytes := s.bytes - removed.unsent.length } len
    else s

/-- `try_write` once `retained` is to be admitted. -/
def takeIn (s : ConsoleState) (mode : ClientFlowMode) (answer : ConsoleAnswer) (retained : Bytes) :
    Bool × ConsoleState :=
  let full := decide (s.bytes + retained.length > consoleOutputBytes) || decide (s.queue.length ≥ consoleOutputPackets)
  if mode ≠ .discard && full then (false, { s with waitingForCapacity := true })
  else
    let s := if mode = .discard then makeRoom (s.queue.length + 1) s retained.length else s
    (true, { s with skipUntilNewline := false, waitingForCapacity := false }.writePacket answer retained)

/-- `try_write` of a direct console. -/
def tryWrite (s : ConsoleState) (mode : ClientFlowMode) (answer : ConsoleAnswer) (bytes : Bytes) :
    Except ConsoleError Bool × ConsoleState :=
  if mode ≠ .discard && consoleOutputBytes < bytes.length then (.error .invalidInput, s)
  else
    let retained := bytes.drop (bytes.length - consoleOutputBytes)
    match s.error with
    | some error => (.error error, { s with error := none })
    | none =>
      if s.stopping then (.error .brokenPipe, s)
      else if s.skipUntilNewline then
        match retained.dropWhile (· != newline) with
        | [] => (.ok true, s)
        | _ :: rest =>
          let (admitted, s) := s.takeIn mode answer rest
          (.ok admitted, s)
      else
        let (admitted, s) := s.takeIn mode answer retained
        (.ok admitted, s)

/-- The queue after an interrupt: the entries are filled again, in order, with the bytes that were kept. -/
def recut : List OutputEntry → Bytes → List OutputEntry
  | [], _ => []
  | entry :: queue, remaining =>
    let count := min remaining.length entry.unsent.length
    if count = 0 ∧ entry.sent = 0 then recut queue remaining
    else
      { entry with bytes := entry.bytes.take entry.sent ++ remaining.take count } ::
        recut queue (remaining.drop count)

/-- `interrupt`, with the number of bytes that were dropped. -/
def interrupt (s : ConsoleState) : Nat × ConsoleState :=
  let filtered := s.stream.filter s.unsent
  let s := { s with
    skipUntilNewline := s.skipUntilNewline || filtered.skipUntilNewline
    queue := recut s.queue filtered.kept
    bytes := filtered.kept.length }
  -- an entry whose rest was dropped is complete
  (filtered.dropped, s.retireDelivered)

end ConsoleState

/-! ### Runs -/

/-- What the session loop does to its console. -/
inductive ConsoleEvent where
  | tryWrite (bytes : Bytes) (answer : ConsoleAnswer)
  | writeQueued (answers : List ConsoleAnswer)
  | interrupt

/-- The file takes something or asks to be tried again. -/
def ConsoleAnswer.clean : ConsoleAnswer → Bool
  | takes count => count != 0
  | again => true
  | failed => false

/-- No write fails. -/
def ConsoleEvent.clean : ConsoleEvent → Bool
  | tryWrite _ answer => answer.clean
  | writeQueued answers => answers.all ConsoleAnswer.clean
  | interrupt => true

/-- A direct console, with the packets it accepted and whether there was an interrupt. -/
structure ConsoleRun where
  state : ConsoleState
  accepted : List Bytes
  interrupted : Bool

namespace ConsoleRun

def start : ConsoleRun := ⟨.new, [], false⟩

def apply (mode : ClientFlowMode) (s : ConsoleRun) : ConsoleEvent → ConsoleRun
  | .tryWrite bytes answer =>
    let (result, state) := s.state.tryWrite mode answer bytes
    match result with
    | .ok true => { s with state, accepted := s.accepted ++ [bytes] }
    | _ => { s with state }
  | .writeQueued answers => { s with state := (s.state.writeQueued answers).2 }
  | .interrupt => { s with state := s.state.interrupt.2, interrupted := true }

def Step (mode : ClientFlowMode) (s t : ConsoleRun) : Prop := ∃ e, e.clean = true ∧ t = s.apply mode e

end ConsoleRun

end EternalTerminal
