import EternalTerminal.Core.TerminalBuffer
import EternalTerminal.Lib.Frames
import EternalTerminal.Net.RouterStream
import EternalTerminal.Terminal.TmuxFilter

/-!
# Terminal — the output side of the PTY session

`terminal_pty_poll.rs`: the loop that reads the PTY, shapes what it reads and writes it to the router in frames.

* `read_pty` reads into a buffer of one chunk and shapes each read in place (`OutputShaper`), until the PTY runs dry
  or the buffer is full.
* `flush_output` writes the startup message and then the buffer in `TERMINAL_BUFFER` frames, as far as the router takes
  them.  A frame that was started is kept, with how much of it is written.
* `recover_router` replaces a router that is gone, and the frame in flight starts again from its first byte.

The state also holds what the run has seen: what each router stream took and what each read of the PTY gave.  A stream
is what the session writes to it after the handshake that set it up.  `scratch` only saves an allocation and is left
out, and so are the keystrokes on their way to the PTY.
-/

namespace EternalTerminal
open Bytes Machine Protobuf Relation

/-- `MAX_OUTPUT_CHUNK` of the PTY runtimes. -/
def maxOutputChunk : Nat := 16 * 1024

/-! ### Shaping -/

/-- After a startup message the shell's first newline is elided. -/
structure OutputShaper where
  /-- Bytes held while the start of the stream may still be that newline. -/
  startup : Option Bytes
  filter : TmuxCcFilter

/-- What one read of the PTY gave. -/
inductive PtyRead where
  | bytes (data : Bytes)
  | eof
  deriving DecidableEq

namespace OutputShaper

def new (afterPrefix : Bool) : OutputShaper := ⟨if afterPrefix then some [] else none, .default⟩

def isNewline (pending : Bytes) : Bool :=
  pending == [newline] || pending == [carriageReturn, newline] ||
    pending == [carriageReturn, carriageReturn, newline]

def startsNewline (pending : Bytes) : Bool :=
  pending.isPrefixOf [carriageReturn, carriageReturn, newline] || pending.isPrefixOf [carriageReturn, newline]

/-- The loop over the first bytes: those held, and the rest of the read. -/
def holdStartup : Bytes → Bytes → Bytes × Bytes
  | pending, [] => (pending, [])
  | pending, byte :: rest =>
    if pending.length < 3 then
      let pending := pending ++ [byte]
      if isNewline pending then ([], rest)
      else if startsNewline pending then holdStartup pending rest
      else (pending, rest)
    else (pending, byte :: rest)

/-- What the filter makes of the bytes. -/
def filtered (shaper : OutputShaper) (input : Bytes) : Bytes × OutputShaper :=
  let r := shaper.filter.applySlice input
  (r.1.getD input, { shaper with filter := r.2 })

def push (shaper : OutputShaper) (input : Bytes) : Bytes × OutputShaper :=
  match shaper.startup with
  | none => shaper.filtered input
  | some pending =>
    let (pending, input) := holdStartup pending input
    if !pending.isEmpty && startsNewline pending && pending.length < 3 then
      ([], { shaper with startup := some pending })
    else
      let r := filtered { shaper with startup := none } pending
      let t := r.2.filtered input
      (r.1 ++ t.1, t.2)

/-- The end of the PTY: everything held is released. -/
def finish (shaper : OutputShaper) : Bytes × OutputShaper :=
  let r := match shaper.startup with
    | some startup => shaper.filter.apply startup
    | none => ([], shaper.filter)
  let t := r.2.finish
  (r.1 ++ t.1, ⟨none, t.2⟩)

def shape (shaper : OutputShaper) : PtyRead → Bytes × OutputShaper
  | .bytes data => shaper.push data
  | .eof => shaper.finish

/-- The output for a number of reads. -/
def shapeAll : OutputShaper → List PtyRead → Bytes × OutputShaper
  | shaper, [] => ([], shaper)
  | shaper, read :: reads =>
    let r := shaper.shape read
    let t := r.2.shapeAll reads
    (r.1 ++ t.1, t.2)

theorem shapeAll_concat (shaper : OutputShaper) (reads : List PtyRead) (read : PtyRead) :
    shaper.shapeAll (reads ++ [read]) =
      ((shaper.shapeAll reads).1 ++ ((shaper.shapeAll reads).2.shape read).1,
        ((shaper.shapeAll reads).2.shape read).2) := by
  induction reads generalizing shaper with
  | nil => simp [shapeAll]
  | cons r reads ih => simp only [List.cons_append, shapeAll, ih, List.append_assoc]

end OutputShaper

/-! ### Frames -/

/-- Why a write to the router failed. -/
inductive RouterWriteError where
  | interrupted
  | wouldBlock
  | brokenPipe
  | connectionReset
  | notConnected
  | writeZero
  | invalidInput
  | other
  deriving DecidableEq

def peerGone : RouterWriteError → Bool
  | .brokenPipe | .connectionReset | .notConnected => true
  | _ => false

def stderrSuffix : Bytes := [0x10, 0x01]

/-- A `TERMINAL_BUFFER` packet that is written from where its output lies. -/
structure TerminalBufferFrame where
  head : Bytes
  outputLen : Nat
  suffix : Bytes
  written : Nat

namespace TerminalBufferFrame

def new (outputLen : Nat) (isStderr : Bool) : Except (ErrorKind × String) TerminalBufferFrame :=
  if maxLocalPacketLen < outputLen then .error packetTooLarge
  else
    let varint := encodeVarint outputLen
    let suffix := if isStderr then stderrSuffix else []
    let payloadLen := if outputLen = 0 then suffix.length else 1 + varint.length + outputLen + suffix.length
    let wireLen := headerLen + payloadLen
    if maxLocalPacketLen < wireLen then .error packetTooLarge
    else match i64OfUsize wireLen with
      | none => .error (.invalidInput, "local packet too large")
      | some length =>
        let head := leBytes 8 length.toNat ++ [0, terminalBuffer]
        .ok ⟨if outputLen = 0 then head else head ++ 0x0a :: varint, outputLen, suffix, 0⟩

def totalLen (f : TerminalBufferFrame) : Nat := f.head.length + f.outputLen + f.suffix.length

def isComplete (f : TerminalBufferFrame) : Bool := f.written == f.totalLen

/-- The buffers that the next write offers. -/
def offered (f : TerminalBufferFrame) (output : Bytes) : List Bytes :=
  if f.written < f.head.length then [f.head.drop f.written, output, f.suffix]
  else if f.written < f.head.length + output.length then [output.drop (f.written - f.head.length), f.suffix]
  else [f.suffix.drop (f.written - f.head.length - output.length)]

/-- One write, of which the stream takes up to `room` bytes: what it took, and the frame after it. -/
def writeSome (f : TerminalBufferFrame) (output : Bytes) (room : Nat) :
    Except RouterWriteError (Bytes × TerminalBufferFrame) :=
  if output.length ≠ f.outputLen then .error .invalidInput
  else
    let taken := (f.offered output).flatten.take room
    if taken.length = 0 ∧ ¬ f.isComplete then .error .writeZero
    else .ok (taken, { f with written := f.written + taken.length })

end TerminalBufferFrame

def encodeLocalPacket (packet : Packet) : Except (ErrorKind × String) Bytes :=
  if maxLocalPacketLen < packet.wireLen then .error packetTooLarge
  else match i64OfUsize packet.wireLen with
    | none => .error (.invalidInput, "local packet too large")
    | some length =>
      .ok (leBytes 8 length.toNat ++ [if packet.encrypted then 1 else 0, packet.header] ++ packet.payload)

/-! ### The session -/

/-- What the kernel does with a read of the PTY. -/
inductive PtyAnswer where
  /-- It gives these bytes, as far as there is room; none are the end. -/
  | bytes (data : Bytes)
  /-- `EIO`: the other side is closed. -/
  | hungUp
  | interrupted
  | again
  | failed
  deriving DecidableEq

/-- Why the session ends. -/
inductive PtySessionError where
  | readPty
  | forward (error : RouterWriteError)
  | frame (error : ErrorKind × String)
  | routerDisconnected
  | reconnect
  deriving DecidableEq

/-- What the router does with a write, and what comes of `reconnect_router_stream` when the session asks for it. -/
inductive RouterAnswer where
  | takes (room : Nat)
  | fails (error : RouterWriteError) (reconnect : Except PtySessionError RouterFraming)

/-- `terminal_pty_poll.rs`: what is read and not yet written, with the history of both. -/
structure PtySession where
  resume : Bool
  decoder : RouterStreamDecoder
  shaper : OutputShaper
  /-- The startup message, framed ahead of any PTY output. -/
  motdPrefix : Bytes
  prefixSent : Nat
  /-- Shaped output; from `sent` to `filled` it is not yet on the router. -/
  output : Bytes
  filled : Nat
  sent : Nat
  /-- The frame in flight, the length of its output and whether that is of the startup message. -/
  frame : Option (TerminalBufferFrame × Nat × Bool)
  ptyEof : Bool
  /-- Writes that the router took, a `usize`. -/
  progress : Nat
  /-- What the router took. -/
  router : Bytes
  /-- What the routers before it took. -/
  lost : List Bytes
  reads : List PtyRead

namespace PtySession

def start (motd : Option Bytes) (framing : RouterFraming) (resume : Bool) : PtySession where
  resume := resume
  decoder := .new framing
  shaper := .new motd.isSome
  motdPrefix := motd.getD []
  prefixSent := 0
  output := List.replicate maxOutputChunk 0
  filled := 0
  sent := 0
  frame := none
  ptyEof := false
  progress := 0
  router := []
  lost := []
  reads := []

/-- What every router stream took, in order. -/
def streams (s : PtySession) : List Bytes := s.lost ++ [s.router]

def outputBacklog (s : PtySession) : Bool :=
  s.frame.isSome || s.prefixSent < s.motdPrefix.length || s.sent < s.filled

/-- A call of the session: how it ended, and the state after it. -/
abbrev Outcome := Except PtySessionError Unit × PtySession

def appendOutput (s : PtySession) (bytes : Bytes) : PtySession :=
  let stop := s.filled + bytes.length
  let output := if s.output.length < stop then s.output ++ List.replicate (stop - s.output.length) 0 else s.output
  { s with output := overwrite s.filled bytes output, filled := stop }

/-- Shape `count` bytes that were read to `start`, in place. -/
def shapeInPlace (s : PtySession) (start count : Nat) : PtySession :=
  let read := slice start (start + count) s.output
  match s.shaper.startup with
  | none =>
    let r := s.shaper.filter.applySlice read
    let s := { s with shaper := { s.shaper with filter := r.2 } }
    match r.1 with
    | none => { s with filled := start + count }
    | some bytes => appendOutput { s with filled := start } bytes
  | some _ =>
    let r := s.shaper.push read
    appendOutput { s with shaper := r.2, filled := start } r.1

def finishOutput (s : PtySession) : PtySession :=
  let r := s.shaper.finish
  appendOutput { s with ptyEof := true, shaper := r.2 } r.1

/-- The kernel puts what it gives at the end of the buffer. -/
def store (s : PtySession) (data : Bytes) : PtySession :=
  { s with output := overwrite s.filled data s.output, reads := s.reads ++ [.bytes data] }

/-- The end of the PTY. -/
def atEof (s : PtySession) : PtySession := finishOutput { s with reads := s.reads ++ [.eof] }

/-- Read until the PTY runs dry or a chunk is full; the answers are those of the reads in order, and then there is
nothing to read. -/
def readPty : List PtyAnswer → PtySession → Outcome
  | [], s => (.ok (), s)
  | answer :: answers, s =>
    if s.filled < maxOutputChunk then
      match answer with
      | .bytes data =>
        let data := data.take (maxOutputChunk - s.filled)
        if data.isEmpty then (.ok (), s.atEof)
        else readPty answers ((s.store data).shapeInPlace s.filled data.length)
      | .hungUp => (.ok (), s.atEof)
      | .interrupted => readPty answers s
      | .again => (.ok (), s)
      | .failed => (.error .readPty, s)
    else (.ok (), s)

/-- The next frame: its length and whether it is of the startup message. -/
def nextFrame (s : PtySession) : Option (Nat × Bool) :=
  if s.prefixSent < s.motdPrefix.length then some (min (s.motdPrefix.length - s.prefixSent) maxOutputChunk, true)
  else if s.sent < s.filled then some (min (s.filled - s.sent) maxOutputChunk, false)
  else none

/-- All output is on the router. -/
def flushed (s : PtySession) : PtySession := { s with sent := 0, filled := 0, motdPrefix := [], prefixSent := 0 }

/-- The output of a frame. -/
def frameOutput (s : PtySession) (length : Nat) (motd : Bool) : Bytes :=
  if motd then slice s.prefixSent (s.prefixSent + length) s.motdPrefix else slice s.sent (s.sent + length) s.output

def recoverRouter (s : PtySession) (error : PtySessionError) (reconnect : Except PtySessionError RouterFraming) : Outcome :=
  if !s.resume then (.error error, s)
  else match reconnect with
    | .error e => (.error e, s)
    | .ok framing =>
      let s := { s with lost := s.lost ++ [s.router], router := [], decoder := .new framing }
      match s.frame with
      | none => (.ok (), s)
      | some (_, length, motd) =>
        match TerminalBufferFrame.new length false with
        | .error e => (.error (.frame e), s)
        | .ok frame => (.ok (), { s with frame := some (frame, length, motd) })

/-- The router took something of the frame. -/
def wrote (s : PtySession) (frame : TerminalBufferFrame) (length : Nat) (motd : Bool) (taken : Bytes) : PtySession :=
  let s := { s with router := s.router ++ taken, progress := (s.progress + 1) % 2 ^ 64 }
  if frame.isComplete then
    if motd then { s with prefixSent := s.prefixSent + length, frame := none }
    else { s with sent := s.sent + length, frame := none }
  else { s with frame := some (frame, length, motd) }

/-- Whether the loop of `flush_output` goes on, and with which state. -/
abbrev Turn := Except Outcome PtySession

/-- A write that failed. -/
def writeFailed (s : PtySession) (error : RouterWriteError) (reconnect : Except PtySessionError RouterFraming) : Turn :=
  match error with
  | .interrupted => .ok s
  | .wouldBlock => .error (.ok (), s)
  | error =>
    if s.resume && peerGone error then
      match s.recoverRouter .routerDisconnected reconnect with
      | (.ok (), s) => .ok s
      | failed => .error failed
    else .error (.error (.forward error), s)

/-- One write of the frame in flight. -/
def writeFrame (s : PtySession) (frame : TerminalBufferFrame) (length : Nat) (motd : Bool) : RouterAnswer → Turn
  | .fails error reconnect => s.writeFailed error reconnect
  | .takes room =>
    match frame.writeSome (s.frameOutput length motd) room with
    | .ok (taken, frame) => .ok (s.wrote frame length motd taken)
    | .error error => s.writeFailed error (.error .reconnect)

/-- The start of the loop's body: a frame is in flight, or there is nothing to write. -/
def framed (s : PtySession) : Except Outcome (PtySession × TerminalBufferFrame × Nat × Bool) :=
  match s.frame with
  | some (frame, length, motd) => .ok (s, frame, length, motd)
  | none =>
    match s.nextFrame with
    | none => .error (.ok (), s.flushed)
    | some (length, motd) =>
      match TerminalBufferFrame.new length false with
      | .error e => .error (.error (.frame e), s)
      | .ok frame => .ok ({ s with frame := some (frame, length, motd) }, frame, length, motd)

/-- Write queued output as frames; the answers are those of the writes in order, and then the router is full. -/
def flushOutput : List RouterAnswer → PtySession → Outcome
  | answers, s =>
    match s.framed with
    | .error done => done
    | .ok (s, frame, length, motd) =>
      match answers with
      | [] => (.ok (), s)
      | answer :: answers =>
        match s.writeFrame frame length motd answer with
        | .error done => done
        | .ok s => flushOutput answers s

/-! ### The loop -/

/-- The calls of `pump` that move output. The PTY is read without output backlog only; whether a call succeeds does not
matter. -/
inductive Step : PtySession → PtySession → Prop where
  | readPty {s : PtySession} (answers : List PtyAnswer) (h : s.outputBacklog = false) : Step s (s.readPty answers).2
  | flushOutput {s : PtySession} (answers : List RouterAnswer) : Step s (s.flushOutput answers).2
  | recoverRouter {s : PtySession} (error : PtySessionError) (reconnect : Except PtySessionError RouterFraming) :
      Step s (s.recoverRouter error reconnect).2

end PtySession

end EternalTerminal
