import EternalTerminal.Terminal.PtySession

/-!
# Terminal — no PTY output is lost with a router

A router stream carries whole `TERMINAL_BUFFER` frames and at most one that is cut short (`Frames.Carries` at
`bufferFrame`).  What the whole frames carry, over all router streams, followed by what the session still holds
(`unsent`), is the startup message followed by what the shaper made of the reads.

The account moves in three ways: a read appends to `unsent` (`sound_read`); a frame that becomes whole takes its output
from the front of `unsent` to the stream (`sound_wrote`); a router that is lost leaves its stream behind, the frame in
flight cut short (`sound_recoverRouter`).  That frame carries the front of `unsent`: the PTY is read only without one.
-/

namespace EternalTerminal
open Bytes Machine Protobuf Frames List Bool LocalPacketDecoder
variable {payload rest : Bytes}

/-! ### The frames of a stream -/

/-- The bytes of a frame. -/
def bufferFrame (payload : Bytes) : Bytes := frame terminalBuffer (encodeTerminalBuffer payload false)

/-- What a frame of the session may carry. -/
def FramePayload (payload : Bytes) : Prop := 0 < payload.length ∧ payload.length ≤ maxOutputChunk

/-- The whole frame at the front of a stream: its length, the flags and the header of the packet, the message. -/
def readBufferFrame (stream : Bytes) : Option (Bytes × Bytes) :=
  let length := leValue (stream.take 8)
  if stream.length < 8 + length then none
  else match (stream.drop 8).take length with
    | 0 :: header :: payload =>
      if header = terminalBuffer then
        match TerminalBuffer.decode payload with
        | some ⟨some buffer, none⟩ => some (buffer, stream.drop (8 + length))
        | _ => none
      else none
    | _ => none

/-- What the whole frames of a stream carry. -/
def wholeFrames (stream : Bytes) : List Bytes := (split readBufferFrame stream).1

/-- What follows the whole frames of a stream. -/
def leftover (stream : Bytes) : Bytes := (split readBufferFrame stream).2

theorem bufferFrame_ne_nil (payload : Bytes) : bufferFrame payload ≠ [] := by
  have hlen : 0 < (bufferFrame payload).length := by
    simp only [bufferFrame, frame, length_append, length_leBytes]
    omega
  exact ne_nil_of_length_pos hlen

/-- The message of a frame is short enough for its length to be written. -/
theorem FramePayload.message_lt (h : FramePayload payload) :
    headerLen + (encodeTerminalBuffer payload false).length < 2 ^ 16 := by
  have hvarint := length_encodeVarint_le payload.length
  have hpl := h.2
  simp only [encodeTerminalBuffer, length_cons, length_append, headerLen, maxOutputChunk] at hpl ⊢
  simp only [false_eq_true, if_false, length_nil]
  omega

theorem FramePayload.decode (h : FramePayload payload) :
    TerminalBuffer.decode (encodeTerminalBuffer payload false) = some ⟨some payload, none⟩ := by
  have hencodable : TerminalBuffer.Encodable ⟨some payload, none⟩ := by
    intro bytes hbs
    cases hbs
    exact lt_of_le_of_lt h.2 (by decide)
  rw [encodeTerminalBuffer_eq]
  exact TerminalBuffer.decode_encode hencodable

theorem FramePayload.length_value (h : FramePayload payload) :
    leValue (leBytes 8 (headerLen + (encodeTerminalBuffer payload false).length)) =
      headerLen + (encodeTerminalBuffer payload false).length := by
  rw [leValue_leBytes]
  exact Nat.mod_eq_of_lt (h.message_lt.trans (by decide))

theorem readBufferFrame_frame (more : Bytes) (h : FramePayload payload) :
    readBufferFrame (bufferFrame payload ++ more) = some (payload, more) := by
  have hval := h.length_value
  have hdec := h.decode
  rw [bufferFrame, frame]
  generalize encodeTerminalBuffer payload false = message at hval hdec ⊢
  have hhead : (leBytes 8 (headerLen + message.length)).length = 8 := length_leBytes _ _
  generalize leBytes 8 (headerLen + message.length) = head at hval hhead ⊢
  have htake : ((head ++ ([0, terminalBuffer] ++ message)) ++ more).take 8 = head := by
    rw [append_assoc, ← hhead, take_left]
  have hdrop : ((head ++ ([0, terminalBuffer] ++ message)) ++ more).drop 8 = ([0, terminalBuffer] ++ message) ++ more := by
    rw [append_assoc, ← hhead, drop_left]
  have hbody : ([0, terminalBuffer] ++ message).length = headerLen + message.length := by
    rw [length_append]
    rfl
  have hroom : ¬ ((head ++ ([0, terminalBuffer] ++ message)) ++ more).length < 8 + (headerLen + message.length) := by
    rw [length_append, length_append, hbody, hhead]
    omega
  rw [readBufferFrame, htake, hval, if_neg hroom, ← drop_drop, hdrop, ← hbody, take_left, drop_left]
  simp only [cons_append, nil_append, if_true, hdec]

/-- A frame that is cut short is not read. -/
theorem readBufferFrame_cut {more : Bytes} (h : FramePayload payload) (hmore : more ≠ [])
    (hfr : bufferFrame payload = rest ++ more) : readBufferFrame rest = none := by
  have hlen : (bufferFrame payload).length = 8 + (headerLen + (encodeTerminalBuffer payload false).length) := by
    simp only [bufferFrame, frame, length_append, length_leBytes]
    rfl
  have hpos := length_pos_of_ne_nil hmore
  rw [readBufferFrame, if_pos]
  by_cases hsh : rest.length < 8
  · exact Nat.lt_add_right _ hsh
  have htake : rest.take 8 = leBytes 8 (headerLen + (encodeTerminalBuffer payload false).length) := by
    have hrest : (rest ++ more).take 8 = rest.take 8 := take_append_of_le_length (Nat.not_lt.mp hsh)
    rw [← hrest, ← hfr, bufferFrame, frame]
    exact take_left' (length_leBytes _ _)
  rw [htake, h.length_value, ← hlen, hfr, length_append]
  omega

/-- Nothing, or the start of a frame that the session may write. -/
def CutFrame (rest : Bytes) : Prop :=
  rest = [] ∨ ∃ payload more, FramePayload payload ∧ more ≠ [] ∧ bufferFrame payload = rest ++ more

theorem CutFrame.cutShort (h : CutFrame rest) : CutShort bufferFrame rest := by
  rcases h with h | ⟨payload, more, -, hmore, hfr⟩
  · exact .inl h
  · exact .inr ⟨payload, more, hmore, hfr⟩

theorem CutFrame.unread (h : CutFrame rest) : readBufferFrame rest = none := by
  rcases h with rfl | ⟨payload, more, hpl, hmore, hfr⟩
  · rfl
  · exact readBufferFrame_cut hpl hmore hfr

/-- A stream with the whole frames of these payloads. -/
def Framed (stream : Bytes) (payloads : List Bytes) : Prop :=
  ∃ rest, Frames.Carries bufferFrame FramePayload stream payloads rest ∧ CutFrame rest

theorem Framed.split_eq {stream : Bytes} {payloads : List Bytes} (h : Framed stream payloads) :
    stream = payloads.flatMap bufferFrame ++ leftover stream ∧ CutShort bufferFrame (leftover stream) ∧
      wholeFrames stream = payloads := by
  obtain ⟨rest, hcar, hcut⟩ := h
  have hspl := hcar.split_eq (fun _ more hitem => readBufferFrame_frame more hitem) bufferFrame_ne_nil hcut.unread
  rw [leftover, wholeFrames, hspl]
  exact ⟨hcar.eq, hcut.cutShort, rfl⟩

theorem wholeFrames_streams {streams : List Bytes} {payloads : List (List Bytes)}
    (h : List.Forall₂ Framed streams payloads) :
    (∀ stream ∈ streams, stream = (wholeFrames stream).flatMap bufferFrame ++ leftover stream ∧
      CutShort bufferFrame (leftover stream)) ∧ streams.flatMap wholeFrames = payloads.flatten := by
  induction h with
  | nil => exact ⟨nofun, rfl⟩
  | cons hframed _ ih =>
    obtain ⟨heq, hcut, rfl⟩ := hframed.split_eq
    exact ⟨forall_mem_cons.mpr ⟨⟨heq, hcut⟩, ih.1⟩, by rw [flatMap_cons, ih.2, flatten_cons]⟩

/-! ### The frame in flight -/

namespace TerminalBufferFrame
variable {output : Bytes} {f : TerminalBufferFrame}

/-- A frame of which nothing is written. -/
def fresh (length : Nat) : TerminalBufferFrame where
  head := leBytes 8 (headerLen + (1 + (encodeVarint length).length + length)) ++ [0, terminalBuffer] ++
    0x0a :: encodeVarint length
  outputLen := length
  suffix := []
  written := 0

variable {length room written : Nat} {taken : Bytes} {frame : TerminalBufferFrame}

theorem new_eq (hpos : 0 < length) (hle : length ≤ maxOutputChunk) :
    new length false = .ok (fresh length) := by
  have hvarint := length_encodeVarint_le length
  simp only [maxOutputChunk] at hle
  have hlen : ¬ maxLocalPacketLen < length := by simp only [maxLocalPacketLen]; omega
  have hwire : ¬ maxLocalPacketLen < headerLen + (1 + (encodeVarint length).length + length) := by
    simp only [maxLocalPacketLen, headerLen]
    omega
  have hi64 := i64OfUsize_of_le (Nat.not_lt.mp hwire)
  simp only [new, if_neg hlen, if_neg (Nat.ne_of_gt hpos), false_eq_true, if_false, length_nil, Nat.add_zero,
    if_neg hwire, hi64]
  rfl

theorem head_append : (fresh output.length).head ++ output = bufferFrame output := by
  have hlen : (encodeTerminalBuffer output false).length = 1 + (encodeVarint output.length).length + output.length := by
    simp only [encodeTerminalBuffer, length_cons, length_append, false_eq_true, if_false, length_nil]
    omega
  rw [bufferFrame, frame, hlen]
  simp only [fresh, encodeTerminalBuffer, false_eq_true, if_false, append_nil, append_assoc,
    cons_append, nil_append]

/-- All bytes of a frame of `output`. -/
def whole (f : TerminalBufferFrame) (output : Bytes) : Bytes := f.head ++ (output ++ f.suffix)

/-- A write offers what is left of the frame. -/
theorem flatten_offered (f : TerminalBufferFrame) (output : Bytes) :
    (f.offered output).flatten = (f.whole output).drop f.written := by
  unfold offered whole
  split
  next hhead => simp [drop_append_of_le_length hhead.le]
  next hhead =>
  rw [drop_append, drop_eq_nil_of_le (Nat.not_lt.mp hhead), nil_append]
  split
  · rw [drop_append_of_le_length (by omega)]
    simp
  next hout =>
    rw [drop_append, drop_eq_nil_of_le (by omega : output.length ≤ f.written - f.head.length), nil_append]
    simp

/-- A write moves on in the frame by what was taken. -/
theorem writeSome_whole (hout : output.length = f.outputLen) (h : f.writeSome output room = .ok (taken, frame)) :
    taken = ((f.whole output).drop f.written).take room ∧ frame = { f with written := f.written + taken.length } := by
  rw [writeSome, flatten_offered, if_neg (not_not.mpr hout)] at h
  dsimp only at h
  split at h
  · cases h
  · cases h
    exact ⟨rfl, rfl⟩

theorem writeSome_ok
    (hout : output.length = length) (h : writeSome { fresh length with written } output room = .ok (taken, frame)) :
    frame = { fresh length with written := written + taken.length } ∧
      (bufferFrame output).take written ++ taken = (bufferFrame output).take (written + taken.length) := by
  subst hout
  obtain ⟨htaken, rfl⟩ := writeSome_whole (by rfl) h
  refine ⟨rfl, ?_⟩
  have hwhole : whole { fresh output.length with written } output = bufferFrame output := by
    rw [← head_append]
    exact congrArg (_ ++ ·) (append_nil output)
  rw [hwhole] at htaken
  rw [take_add, htaken, length_take, ← take_eq_take_min]

theorem isComplete_fresh (hout : output.length = length) :
    isComplete { fresh length with written } = true ↔ written = (bufferFrame output).length := by
  subst hout
  rw [isComplete, beq_iff_eq, ← head_append, length_append]
  rfl

/-- A frame is refused just when the packet is; its bytes are those of the packet. -/
theorem new_cases (hne : output ≠ []) (isStderr : Bool) :
    (new output.length isStderr = .error packetTooLarge ∧
      encodeLocalPacket (.new terminalBuffer (encodeTerminalBuffer output isStderr)) = .error packetTooLarge) ∨
    ∃ f, new output.length isStderr = .ok f ∧ f.outputLen = output.length ∧ f.written = 0 ∧
      encodeLocalPacket (.new terminalBuffer (encodeTerminalBuffer output isStderr)) = .ok (f.whole output) := by
  have hpos : output.length ≠ 0 := mt length_eq_zero_iff.mp hne
  have hwire : Packet.wireLen (.new terminalBuffer (encodeTerminalBuffer output isStderr)) =
      headerLen + (1 + (encodeVarint output.length).length + output.length +
        (if isStderr then stderrSuffix else []).length) := by
    simp only [Packet.wireLen, Packet.new, encodeTerminalBuffer, length_cons, length_append, stderrSuffix]
    omega
  by_cases hbig : maxLocalPacketLen < Packet.wireLen (.new terminalBuffer (encodeTerminalBuffer output isStderr))
  · refine .inl ⟨?_, by rw [encodeLocalPacket, if_pos hbig]⟩
    rw [hwire] at hbig
    simp only [new, if_neg hpos, if_pos hbig, ite_self]
  · have hi64 := i64OfUsize_of_le (Nat.not_lt.mp hbig)
    rw [encodeLocalPacket, if_neg hbig, hi64]
    rw [hwire] at hbig hi64
    have hlen : ¬ maxLocalPacketLen < output.length := by omega
    simp only [new, if_neg hlen, if_neg hpos, if_neg hbig, hi64]
    refine .inr ⟨_, rfl, rfl, rfl, ?_⟩
    rw [hwire]
    simp only [whole, Packet.new, encodeTerminalBuffer, stderrSuffix, Int.toNat_natCast, append_assoc, cons_append,
      nil_append, false_eq_true, if_false]

/-- The bytes on the stream and the frame, after a write with each answer of the stream. -/
def writes (f : TerminalBufferFrame) (output : Bytes) : List RouterAnswer → Bytes × TerminalBufferFrame
  | [] => ([], f)
  | .fails _ _ :: answers => f.writes output answers
  | .takes room :: answers =>
    match f.writeSome output room with
    | .error _ => f.writes output answers
    | .ok (taken, f) => (taken ++ (f.writes output answers).1, (f.writes output answers).2)

/-- How many bytes the stream had room for. -/
def granted : List RouterAnswer → Nat
  | [] => 0
  | .fails _ _ :: answers => granted answers
  | .takes room :: answers => room + granted answers

theorem length_whole (hout : output.length = f.outputLen) : (f.whole output).length = f.totalLen := by
  rw [whole, length_append, length_append, totalLen, hout, Nat.add_assoc]

theorem writes_eq (hout : output.length = f.outputLen) (hw : f.written ≤ f.totalLen) (answers : List RouterAnswer) :
    f.writes output answers = (((f.whole output).drop f.written).take (granted answers),
      { f with written := min f.totalLen (f.written + granted answers) }) := by
  have hlen := length_whole hout
  induction answers generalizing f with
  | nil => simp [writes, granted, Nat.min_eq_right hw]
  | cons answer answers ih =>
    cases answer with
    | fails error reconnect => exact ih hout hw hlen
    | takes room =>
      rw [writes, granted]
      cases h : f.writeSome output room with
      | error error =>
        -- a write of nothing, with bytes of the frame left
        rw [writeSome, flatten_offered, if_neg (not_not.mpr hout)] at h
        dsimp only at h
        split at h
        next hzero =>
          rw [length_take, length_drop, hlen, isComplete, beq_iff_eq] at hzero
          rw [show room = 0 by omega, Nat.zero_add]
          exact ih hout hw hlen
        next => cases h
      | ok r =>
        obtain ⟨htaken, hframe⟩ := writeSome_whole hout h
        obtain ⟨taken, frame⟩ := r
        dsimp only at htaken hframe ⊢
        subst hframe
        have hcount : taken.length = min room (f.totalLen - f.written) := by
          rw [htaken, length_take, length_drop, hlen]
        rw [ih (f := { f with written := f.written + taken.length }) hout (by dsimp only [totalLen] at *; omega) hlen]
        refine Prod.ext ?_ ?_
        · show taken ++ ((f.whole output).drop (f.written + taken.length)).take _ = _
          have hdrop : ((f.whole output).drop f.written).drop taken.length =
              ((f.whole output).drop f.written).drop room := by
            rw [hcount, ← hlen, ← length_drop]
            exact (drop_eq_drop_min ..).symm
          rw [take_add, ← htaken, ← drop_drop, hdrop]
        · show { f with written := min f.totalLen (f.written + taken.length + granted answers) } = _
          rw [hcount]
          congr 1
          omega

/-- **A frame on its stream.**  Whatever the answers of the stream are, the bytes it has are those of the packet, as
far as it had room; the frame is complete just when it has them all.  And a frame is refused just when the packet is. -/
theorem writes_encodeLocalPacket (output : Bytes) (hne : output ≠ []) (isStderr : Bool) :
    (∀ e, new output.length isStderr = .error e ↔
      encodeLocalPacket (.new terminalBuffer (encodeTerminalBuffer output isStderr)) = .error e) ∧
    ∀ f, new output.length isStderr = .ok f → ∃ encoded,
      encodeLocalPacket (.new terminalBuffer (encodeTerminalBuffer output isStderr)) = .ok encoded ∧
      ∀ answers, (f.writes output answers).1 = encoded.take (granted answers) ∧
        ((f.writes output answers).2.isComplete = true ↔ (f.writes output answers).1 = encoded) := by
  rcases new_cases hne isStderr with ⟨hnew, henc⟩ | ⟨f, hnew, hout, hwr, henc⟩ <;> rw [hnew, henc]
  · exact ⟨fun e => by simp, nofun⟩
  refine ⟨fun e => iff_of_false nofun nofun, fun f' hf => ?_⟩
  cases hf
  refine ⟨_, rfl, fun answers => ?_⟩
  have hlen := length_whole hout.symm
  rw [writes_eq hout.symm (hwr ▸ Nat.zero_le _), hwr, drop_zero, Nat.zero_add]
  refine ⟨rfl, ?_⟩
  rw [isComplete, beq_iff_eq, take_eq_self_iff, hlen]
  exact inf_eq_left

/-- Two bytes, written in three pieces with a full stream between them. -/
theorem writes_encodeLocalPacket_pieces : ∃ f encoded, new 2 true = .ok f ∧
    encodeLocalPacket (.new terminalBuffer (encodeTerminalBuffer [97, 98] true)) = .ok encoded ∧
    (f.writes [97, 98] [.takes 5, .fails .wouldBlock (.ok .packets), .takes 9, .takes 2]).1 = encoded := by
  obtain ⟨encoded, henc, hwrites⟩ := (writes_encodeLocalPacket [97, 98] (by decide) true).2 _ rfl
  exact ⟨_, encoded, rfl, henc, (hwrites _).2.mp (by decide +kernel)⟩

end TerminalBufferFrame

namespace PtySession
variable {length : Nat} {s : PtySession} {motd isMotd : Bool}

/-- What the session holds for the router. -/
def unsent (s : PtySession) : Bytes := s.motdPrefix.drop s.prefixSent ++ slice s.sent s.filled s.output

/-- The buffer holds its positions and a chunk. -/
structure Bounded (s : PtySession) : Prop where
  sent_le : s.sent ≤ s.filled
  filled_le : s.filled ≤ s.output.length
  room : maxOutputChunk ≤ s.output.length

/-- A frame of this length takes the front of what is not sent. -/
def Fits (s : PtySession) (length : Nat) (motd : Bool) : Prop :=
  0 < length ∧ length ≤ maxOutputChunk ∧
    if motd then s.prefixSent + length ≤ s.motdPrefix.length
    else s.motdPrefix.length ≤ s.prefixSent ∧ s.sent + length ≤ s.filled

theorem Fits.frameOutput_eq (h : s.Fits length motd) : s.frameOutput length motd = s.unsent.take length := by
  obtain ⟨-, -, h⟩ := h
  cases motd with
  | true =>
    simp only [if_true] at h
    rw [frameOutput, if_pos rfl, unsent, take_append_of_le_length (by rw [length_drop]; omega), slice, take_drop]
  | false =>
    simp only [false_eq_true, if_false] at h
    rw [frameOutput, if_neg Bool.false_ne_true, unsent, drop_eq_nil_of_le h.1, nil_append, take_slice _ h.2]

theorem Bounded.length_frameOutput (hs : s.Bounded)
    (h : s.Fits length motd) : (s.frameOutput length motd).length = length := by
  obtain ⟨-, -, h⟩ := h
  have hfil := hs.filled_le
  cases motd with
  | true =>
    simp only [if_true] at h
    rw [frameOutput, if_pos rfl, length_slice h]
    omega
  | false =>
    simp only [false_eq_true, if_false] at h
    rw [frameOutput, if_neg Bool.false_ne_true, length_slice (by omega)]
    omega

theorem Bounded.framePayload (hs : s.Bounded)
    (h : s.Fits length motd) : FramePayload (s.frameOutput length motd) := by
  rw [FramePayload, hs.length_frameOutput h]
  exact ⟨h.1, h.2.1⟩

/-- The frame in flight is one of the front of what is not sent, and `rest` is what the router has of it. -/
def Flying (s : PtySession) (rest : Bytes) : Prop :=
  match s.frame with
  | none => rest = []
  | some (frame, length, motd) =>
    s.Fits length motd ∧ ∃ written, frame = { TerminalBufferFrame.fresh length with written } ∧
      written < (bufferFrame (s.frameOutput length motd)).length ∧
      rest = (bufferFrame (s.frameOutput length motd)).take written

theorem Bounded.cutFrame (hs : s.Bounded) {rest : Bytes} (h : s.Flying rest) : CutFrame rest := by
  unfold Flying at h
  split at h
  · exact .inl h
  · obtain ⟨hfits, written, -, hlt, rfl⟩ := h
    refine .inr ⟨_, (bufferFrame _).drop written, hs.framePayload hfits, ?_, (take_append_drop ..).symm⟩
    exact ne_nil_of_length_pos (by rw [length_drop]; omega)

/-- The account of a run. -/
structure Sound (motd : Option Bytes) (s : PtySession) : Prop where
  bounded : s.Bounded
  shaper : s.shaper = ((OutputShaper.new motd.isSome).shapeAll s.reads).2
  account : ∃ old current rest, List.Forall₂ Framed s.lost old ∧
    Frames.Carries bufferFrame FramePayload s.router current rest ∧ s.Flying rest ∧
    (old.flatten ++ current).flatten ++ s.unsent =
      motd.getD [] ++ ((OutputShaper.new motd.isSome).shapeAll s.reads).1

variable {motd : Option Bytes} {s : PtySession}

theorem sound_start (motd : Option Bytes) (framing : RouterFraming) (resume : Bool) :
    Sound motd (start motd framing resume) where
  bounded := ⟨le_rfl, Nat.zero_le _, by simp [start]⟩
  shaper := rfl
  account := ⟨[], [], [], .nil, .empty _ _, rfl, by simp [unsent, start, OutputShaper.shapeAll]⟩

/-! ### Reads -/

/-- Output was appended to the buffer. -/
structure Appended (s : PtySession) (bytes output : Bytes) (filled : Nat) : Prop where
  slice_eq : slice s.sent filled output = slice s.sent s.filled s.output ++ bytes
  filled_ge : s.filled ≤ filled
  filled_le : filled ≤ output.length
  length_ge : s.output.length ≤ output.length

/-- The bytes before a copy stay. -/
theorem take_overwrite {i : Nat} {bs l : Bytes} (h : i ≤ l.length) : (overwrite i bs l).take i = l.take i := by
  rw [overwrite, append_assoc, take_append_of_le_length (by rw [length_take]; omega), take_take, Nat.min_self]

theorem appendOutput_eq (hsent : s.sent ≤ s.filled) (hfil : s.filled ≤ s.output.length) (bytes : Bytes) :
    ∃ output, s.appendOutput bytes = { s with output, filled := s.filled + bytes.length } ∧
      s.Appended bytes output (s.filled + bytes.length) := by
  refine ⟨_, rfl, ?_⟩
  obtain ⟨pad, hpad⟩ : ∃ pad, (if s.output.length < s.filled + bytes.length
      then s.output ++ List.replicate (s.filled + bytes.length - s.output.length) 0 else s.output) = s.output ++ pad ∧
      s.filled + bytes.length ≤ (s.output ++ pad).length := by
    split
    · exact ⟨_, rfl, by rw [length_append, length_replicate]; omega⟩
    · exact ⟨[], (append_nil _).symm, by rw [append_nil]; omega⟩
  rw [hpad.1]
  have hlen := length_overwrite hpad.2
  refine ⟨?_, Nat.le_add_right _ _, ?_, ?_⟩
  · rw [slice_overwrite hsent hpad.2, slice_append_right pad hfil]
  · rw [hlen]
    exact hpad.2
  · rw [hlen, length_append]
    exact Nat.le_add_right _ _

/-- The state after a read. -/
def afterRead (s : PtySession) (read : PtyRead) (output : Bytes) (filled : Nat) (ptyEof : Bool) : PtySession :=
  { s with output, filled, ptyEof, shaper := (s.shaper.shape read).2, reads := s.reads ++ [read] }

/-- A read of the PTY was shaped into the buffer. -/
def Shaped (s s' : PtySession) (read : PtyRead) : Prop :=
  ∃ output filled ptyEof, s' = s.afterRead read output filled ptyEof ∧
    s.Appended (s.shaper.shape read).1 output filled

theorem shaped_atEof (hs : s.Bounded) : s.Shaped s.atEof .eof := by
  let finished : PtySession :=
    { s with reads := s.reads ++ [.eof], ptyEof := true, shaper := s.shaper.finish.2 }
  obtain ⟨output, heq, happ⟩ :=
    appendOutput_eq (s := finished) hs.sent_le hs.filled_le s.shaper.finish.1
  exact ⟨output, _, true, heq, { happ with }⟩

section
variable {data : Bytes} (hs : s.Bounded) (hdata : s.filled + data.length ≤ s.output.length)
include hs hdata

/-- What a read stored, when it is shaped to something else at its place. -/
theorem Bounded.appendOutput_store (shaper : OutputShaper) (bytes : Bytes) :
    ∃ output filled, appendOutput { s.store data with shaper, filled := s.filled } bytes =
        { s with output, filled, shaper, reads := s.reads ++ [.bytes data] } ∧ s.Appended bytes output filled := by
  have hlen := length_overwrite hdata
  obtain ⟨output, heq, happ⟩ := appendOutput_eq (s := { s.store data with shaper, filled := s.filled })
    hs.sent_le (by rw [store, hlen]; exact hs.filled_le) bytes
  refine ⟨output, _, heq, ?_, happ.2, happ.3, ?_⟩
  · have hslice := happ.1
    have hkept : slice s.sent s.filled (overwrite s.filled data s.output) = slice s.sent s.filled s.output := by
      rw [slice, take_overwrite hs.filled_le, slice]
    exact hslice.trans (congrArg (· ++ bytes) hkept)
  · have hge := happ.4
    rwa [store, hlen] at hge

theorem shaped_shapeInPlace : s.Shaped ((s.store data).shapeInPlace s.filled data.length) (.bytes data) := by
  have hread : slice s.filled (s.filled + data.length) (s.store data).output = data := by
    rw [store, slice_overwrite le_rfl hdata, slice_self, nil_append]
  have hshaper : (s.store data).shaper = s.shaper := rfl
  unfold shapeInPlace
  rw [hread, hshaper]
  cases hstart : s.shaper.startup with
  | some pending =>
    obtain ⟨output, filled, heq, happ⟩ :=
      hs.appendOutput_store hdata (s.shaper.push data).2 (s.shaper.push data).1
    exact ⟨output, filled, s.ptyEof, heq, happ⟩
  | none =>
    have hshape : s.shaper.shape (.bytes data) = s.shaper.filtered data := by
      rw [OutputShaper.shape, OutputShaper.push, hstart]
    dsimp only
    cases hslice : (s.shaper.filter.applySlice data).1 with
    | none =>
      -- plain output is already where it belongs
      refine ⟨overwrite s.filled data s.output, s.filled + data.length, s.ptyEof, ?_, ?_, Nat.le_add_right _ _, ?_, ?_⟩
      · rw [afterRead, hshape]
        rfl
      · rw [hshape, OutputShaper.filtered, hslice, Option.getD_none]
        exact slice_overwrite hs.sent_le hdata
      · rw [length_overwrite hdata]
        exact hdata
      · rw [length_overwrite hdata]
    | some bytes =>
      obtain ⟨output, filled, heq, happ⟩ :=
        hs.appendOutput_store hdata (s.shaper.filtered data).2 bytes
      refine ⟨output, filled, s.ptyEof, ?_, ?_⟩
      · rw [afterRead, hshape]
        exact heq
      · rw [hshape, OutputShaper.filtered, hslice, Option.getD_some]
        exact happ

end

/-- **A read appends what the shaper makes of it.** -/
theorem sound_read (h : Sound motd s) (hfr : s.frame = none) {s' : PtySession} {read : PtyRead}
    (hread : s.Shaped s' read) : Sound motd s' ∧ s'.frame = none := by
  obtain ⟨output, filled, ptyEof, rfl, happ⟩ := hread
  obtain ⟨old, current, rest, hold, hcur, hflying, hacc⟩ := h.account
  refine ⟨⟨⟨h.bounded.sent_le.trans happ.filled_ge, happ.filled_le,
    h.bounded.room.trans happ.length_ge⟩, ?_, old, current, rest, hold, hcur, ?_, ?_⟩, hfr⟩
  · rw [afterRead, OutputShaper.shapeAll_concat, ← h.shaper]
  · rw [Flying, hfr] at hflying
    rw [Flying, afterRead]
    simp only [hfr]
    exact hflying
  · rw [afterRead, OutputShaper.shapeAll_concat, ← h.shaper, ← append_assoc, ← hacc, unsent, unsent, happ.slice_eq]
    simp only [append_assoc]

theorem sound_readPty (answers : List PtyAnswer) (h : Sound motd s) (hfr : s.frame = none) :
    Sound motd (s.readPty answers).2 := by
  induction answers generalizing s with
  | nil => exact h
  | cons answer answers ih =>
    unfold readPty
    split
    next hroom =>
      cases answer with
      | bytes data =>
        dsimp only
        split
        · exact (sound_read h hfr (shaped_atEof h.bounded)).1
        have hlen : (data.take (maxOutputChunk - s.filled)).length ≤ maxOutputChunk - s.filled :=
          length_take_le _ _
        have hle := h.bounded.room
        have hfits : s.filled + (data.take (maxOutputChunk - s.filled)).length ≤ s.output.length := by omega
        have hnext := sound_read h hfr (shaped_shapeInPlace h.bounded hfits)
        exact ih hnext.1 hnext.2
      | hungUp => exact (sound_read h hfr (shaped_atEof h.bounded)).1
      | interrupted => exact ih h hfr
      | again => exact h
      | failed => exact h
    · exact h

/-! ### Writes -/

/-- **The routers before this one keep what they have**, and the frame in flight starts again. -/
theorem sound_recoverRouter (h : Sound motd s) (error : PtySessionError)
    (reconnect : Except PtySessionError RouterFraming) :
    Sound motd (s.recoverRouter error reconnect).2 := by
  unfold recoverRouter
  split
  · exact h
  split
  · exact h
  rename_i framing
  obtain ⟨old, current, rest, hold, hcur, hflying, hacc⟩ := h.account
  have hlost : List.Forall₂ Framed (s.lost ++ [s.router]) (old ++ [current]) :=
    rel_append hold (.cons ⟨rest, hcur, h.bounded.cutFrame hflying⟩ .nil)
  have hflat : ((old ++ [current]).flatten ++ []).flatten = (old.flatten ++ current).flatten := by simp
  dsimp only
  split
  next hfr =>
    refine ⟨{ h.bounded with }, h.shaper, old ++ [current], [], [], hlost, .empty _ _, ?_, ?_⟩
    · rw [Flying]
      simp only [hfr]
    · exact (congrArg (· ++ s.unsent) hflat).trans hacc
  rename_i frame length isMotd hfr
  rw [Flying, hfr] at hflying
  obtain ⟨hfits, -⟩ := hflying
  rw [TerminalBufferFrame.new_eq hfits.1 hfits.2.1]
  refine ⟨{ h.bounded with }, h.shaper, old ++ [current], [], [], hlost, .empty _ _, ?_, ?_⟩
  · exact ⟨hfits, 0, rfl, length_pos_of_ne_nil (bufferFrame_ne_nil _), rfl⟩
  · exact (congrArg (· ++ s.unsent) hflat).trans hacc

/-- The account after a turn of the loop, whether the loop ends with it or not. -/
def SoundTurn (motd : Option Bytes) : Turn → Prop
  | .error done => Sound motd done.2
  | .ok s => Sound motd s

theorem sound_writeFailed (h : Sound motd s) (error : RouterWriteError)
    (reconnect : Except PtySessionError RouterFraming) : SoundTurn motd (s.writeFailed error reconnect) := by
  have hrecover := sound_recoverRouter h .routerDisconnected reconnect
  unfold writeFailed
  split
  · exact h
  · exact h
  split
  · generalize s.recoverRouter .routerDisconnected reconnect = outcome at hrecover
    obtain ⟨_ | _, s'⟩ := outcome <;> exact hrecover
  · exact h

/-- The output of the frame is on the router. -/
theorem Bounded.advance (hs : s.Bounded) (h : s.Fits length isMotd) (s' : PtySession)
    (hs' : s' = if isMotd then { s with prefixSent := s.prefixSent + length, frame := none }
      else { s with sent := s.sent + length, frame := none }) :
    s'.Bounded ∧ s'.frame = none ∧ s.unsent = s.frameOutput length isMotd ++ s'.unsent := by
  have hout := h.frameOutput_eq
  obtain ⟨-, -, h⟩ := h
  cases isMotd with
  | true =>
    simp only [if_true] at h hs'
    subst hs'
    refine ⟨{ hs with }, rfl, ?_⟩
    have hdrop : s.unsent.drop length = s.motdPrefix.drop (s.prefixSent + length) ++ slice s.sent s.filled s.output := by
      rw [unsent, drop_append_of_le_length (by rw [length_drop]; omega), drop_drop]
    rw [hout]
    exact (take_append_drop length s.unsent).symm.trans (congrArg (s.unsent.take length ++ ·) hdrop)
  | false =>
    simp only [false_eq_true, if_false] at h hs'
    subst hs'
    refine ⟨⟨h.2, hs.2, hs.3⟩, rfl, ?_⟩
    have hdrop : s.unsent.drop length = s.motdPrefix.drop s.prefixSent ++ slice (s.sent + length) s.filled s.output := by
      rw [unsent, drop_eq_nil_of_le h.1, nil_append, drop_slice, nil_append]
    rw [hout]
    exact (take_append_drop length s.unsent).symm.trans (congrArg (s.unsent.take length ++ ·) hdrop)

section
variable {frame : TerminalBufferFrame} (h : Sound motd s) (hfr : s.frame = some (frame, length, isMotd))
include h hfr

theorem sound_wrote {frame' : TerminalBufferFrame} {room : Nat} {taken : Bytes}
    (hwrite : frame.writeSome (s.frameOutput length isMotd) room = .ok (taken, frame')) :
    Sound motd (s.wrote frame' length isMotd taken) := by
  obtain ⟨old, current, rest, hold, hcur, hflying, hacc⟩ := h.account
  rw [Flying, hfr] at hflying
  obtain ⟨hfits, written, rfl, hlt, rfl⟩ := hflying
  have hlen := h.bounded.length_frameOutput hfits
  obtain ⟨rfl, htake⟩ := TerminalBufferFrame.writeSome_ok hlen hwrite
  have hrouter := hcur.extend taken
  rw [htake] at hrouter
  let taking : PtySession := { s with router := s.router ++ taken, progress := (s.progress + 1) % 2 ^ 64 }
  have hbnd : taking.Bounded := { h.bounded with }
  unfold wrote
  split
  · -- the frame is whole: its output moves from the session to the stream
    rename_i hcomp
    rw [(TerminalBufferFrame.isComplete_fresh hlen).mp hcomp, take_length] at hrouter
    have hcl := hrouter.close (h.bounded.framePayload hfits)
    obtain ⟨hbnd', hnone, huns⟩ := hbnd.advance (show taking.Fits length isMotd from hfits) _ rfl
    have hacc' : (old.flatten ++ (current ++ [s.frameOutput length isMotd])).flatten ++ PtySession.unsent
        (if isMotd then { taking with prefixSent := s.prefixSent + length, frame := none }
          else { taking with sent := s.sent + length, frame := none }) =
        motd.getD [] ++ ((OutputShaper.new motd.isSome).shapeAll s.reads).1 := by
      rw [← hacc, ← append_assoc, flatten_append, flatten_singleton, append_assoc]
      exact congrArg ((old.flatten ++ current).flatten ++ ·) huns.symm
    cases isMotd with
    | true => exact ⟨hbnd', h.shaper, old, _, [], hold, hcl, rfl, hacc'⟩
    | false => exact ⟨hbnd', h.shaper, old, _, [], hold, hcl, rfl, hacc'⟩
  next hcomp =>
    have hwr : written + taken.length < (bufferFrame (s.frameOutput length isMotd)).length := by
      have hle := congrArg List.length htake
      rw [length_append, length_take, length_take] at hle
      have hne := mt (TerminalBufferFrame.isComplete_fresh hlen).mpr hcomp
      omega
    exact ⟨{ h.bounded with }, h.shaper, old, current, _, hold, hrouter,
      ⟨hfits, _, rfl, hwr, rfl⟩, hacc⟩

theorem sound_writeFrame (answer : RouterAnswer) : SoundTurn motd (s.writeFrame frame length isMotd answer) := by
  cases answer with
  | fails error reconnect => exact sound_writeFailed h error reconnect
  | takes room =>
    rw [writeFrame]
    split
    next hwr =>
      exact sound_wrote h hfr hwr
    · exact sound_writeFailed h _ _

end

theorem fits_nextFrame (h : s.nextFrame = some (length, isMotd)) :
    s.Fits length isMotd := by
  unfold nextFrame at h
  have hchunk : 0 < maxOutputChunk := by decide
  split at h
  · cases h
    refine ⟨?_, Nat.min_le_right _ _, ?_⟩
    · omega
    · simp only [if_true]
      omega
  split at h
  · cases h
    refine ⟨?_, Nat.min_le_right _ _, ?_⟩
    · omega
    · simp only [false_eq_true, if_false]
      omega
  · cases h

/-- With nothing to frame, the buffers start anew. -/
theorem sound_flushed (h : Sound motd s) (hfr : s.frame = none) (hnext : s.nextFrame = none) :
    Sound motd s.flushed := by
  obtain ⟨old, current, rest, hold, hcur, hflying, hacc⟩ := h.account
  have huns : s.unsent = [] := by
    unfold nextFrame at hnext
    split at hnext
    · cases hnext
    split at hnext
    · cases hnext
    rename_i hprefix hsent
    have hsent' := h.bounded.sent_le
    rw [unsent, drop_eq_nil_of_le (Nat.not_lt.mp hprefix), show s.sent = s.filled by omega, slice_self]
    rfl
  refine ⟨⟨le_rfl, Nat.zero_le _, h.bounded.room⟩, h.shaper, old, current, rest, hold, hcur, ?_, ?_⟩
  · rw [Flying, hfr] at hflying
    rw [Flying, flushed]
    simp only [hfr]
    exact hflying
  · rw [huns] at hacc
    exact hacc

/-- The start of a turn: a frame is in flight, or the call ends. -/
theorem sound_framed (h : Sound motd s) :
    match s.framed with
    | .error done => Sound motd done.2
    | .ok (s', frame, length, isMotd) => Sound motd s' ∧ s'.frame = some (frame, length, isMotd) := by
  unfold framed
  cases hfr : s.frame with
  | some flight => exact ⟨h, hfr⟩
  | none =>
    cases hnext : s.nextFrame with
    | none => exact sound_flushed h hfr hnext
    | some next =>
      obtain ⟨length, isMotd⟩ := next
      have hfits := fits_nextFrame hnext
      simp only [TerminalBufferFrame.new_eq hfits.1 hfits.2.1]
      obtain ⟨old, current, rest, hold, hcur, hflying, hacc⟩ := h.account
      rw [Flying, hfr] at hflying
      subst hflying
      refine ⟨⟨{ h.bounded with }, h.shaper, old, current, [], hold, hcur, ?_, hacc⟩, trivial⟩
      exact ⟨hfits, 0, rfl, length_pos_of_ne_nil (bufferFrame_ne_nil _), rfl⟩

theorem sound_flushOutput (answers : List RouterAnswer) (h : Sound motd s) : Sound motd (s.flushOutput answers).2 := by
  induction answers generalizing s with
  | nil =>
    have hframed := sound_framed h
    unfold flushOutput
    generalize s.framed = turn at hframed
    obtain _ | ⟨s', frame, length, isMotd⟩ := turn
    · exact hframed
    · exact hframed.1
  | cons answer answers ih =>
    have hframed := sound_framed h
    unfold flushOutput
    generalize s.framed = turn at hframed
    obtain _ | ⟨s', frame, length, isMotd⟩ := turn
    · exact hframed
    · have hturn := sound_writeFrame hframed.1 hframed.2 answer
      dsimp only
      generalize s'.writeFrame frame length isMotd answer = turn at hturn
      cases turn with
      | error done => exact hturn
      | ok s'' => exact ih hturn

theorem sound_step {s' : PtySession} (h : Sound motd s) (hstep : Step s s') : Sound motd s' := by
  cases hstep with
  | readPty answers hidle =>
    have hfr : s.frame = none := by
      simp only [outputBacklog, or_eq_false_iff, Option.isSome_eq_false_iff, Option.isNone_iff_eq_none] at hidle
      exact hidle.1.1
    exact sound_readPty answers h hfr
  | flushOutput answers => exact sound_flushOutput answers h
  | recoverRouter error reconnect => exact sound_recoverRouter h error reconnect

/-- **The PTY session.**  In every run each router stream is whole `TERMINAL_BUFFER` frames, followed by at most one
that is cut short.  What the whole frames of all streams carry, followed by what is left of the startup message and of
the buffer, is the startup message followed by what the shaper made of all that was read, with what it releases at the
end of the PTY.  What is sent and filled stays within the buffer. -/
theorem pty_output_exact (motd : Option Bytes) (framing : RouterFraming) (resume : Bool) {s : PtySession}
    (hrun : Relation.ReflTransGen Step (start motd framing resume) s) :
    (∀ stream ∈ s.streams, stream = (wholeFrames stream).flatMap bufferFrame ++ leftover stream ∧
      CutShort bufferFrame (leftover stream)) ∧
    (s.streams.flatMap wholeFrames).flatten ++ (s.motdPrefix.drop s.prefixSent ++ slice s.sent s.filled s.output) =
      motd.getD [] ++ ((OutputShaper.new motd.isSome).shapeAll s.reads).1 ∧
    s.sent ≤ s.filled ∧ s.filled ≤ s.output.length := by
  have hsound := reach_invariant (P := Sound motd) hrun (sound_start motd framing resume)
    fun _ _ h hstep => sound_step h hstep
  obtain ⟨old, current, rest, hold, hcurrent, hflying, haccount⟩ := hsound.account
  have hstreams : List.Forall₂ Framed s.streams (old ++ [current]) :=
    rel_append hold (.cons ⟨rest, hcurrent, hsound.bounded.cutFrame hflying⟩ .nil)
  obtain ⟨hframes, hwhole⟩ := wholeFrames_streams hstreams
  refine ⟨hframes, ?_, hsound.bounded.sent_le, hsound.bounded.filled_le⟩
  rw [hwhole, flatten_append, flatten_singleton]
  exact haccount

/-- The router goes away in the middle of the startup message's frame; the next one takes it whole, and then a part of
the frame with the shell's first output. -/
def lostRouterRun : PtySession :=
  let s := ((start (some [104, 105]) .packets true).flushOutput
    [.takes 5, .fails .brokenPipe (.ok .upstream), .takes 100]).2
  let s := (s.readPty [.bytes [13], .interrupted, .bytes [10, 36], .again]).2
  (s.flushOutput [.takes 9, .fails .wouldBlock (.error .reconnect)]).2

theorem pty_output_exact_lost_router :
    lostRouterRun.streams = [[6, 0, 0, 0, 0], [6, 0, 0, 0, 0, 0, 0, 0, 0, 1, 10, 2, 104, 105, 5, 0, 0, 0, 0, 0, 0, 0, 0]] ∧
      (lostRouterRun.streams.flatMap wholeFrames).flatten ++
          (lostRouterRun.motdPrefix.drop lostRouterRun.prefixSent ++
            slice lostRouterRun.sent lostRouterRun.filled lostRouterRun.output) =
        [104, 105] ++ ((OutputShaper.new true).shapeAll lostRouterRun.reads).1 ∧
      ((OutputShaper.new true).shapeAll lostRouterRun.reads).1 = [36] := by
  have hrun : Relation.ReflTransGen Step (start (some [104, 105]) .packets true) lostRouterRun :=
    .tail (.tail (.tail .refl (.flushOutput _)) (.readPty _ (by decide +kernel))) (.flushOutput _)
  exact ⟨by decide +kernel, (pty_output_exact _ _ _ hrun).2.1, by decide +kernel⟩

end PtySession

end EternalTerminal
