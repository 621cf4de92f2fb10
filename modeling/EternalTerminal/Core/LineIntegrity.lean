import EternalTerminal.Core.QueueStream
import EternalTerminal.Core.ThinnedLines

/-!
# Core — whole lines through interrupts

The output of a terminal in tmux control mode through a backpressure queue that interrupts filter.  The
bridge pushes the output, keeps a packet that is refused and pushes it again; an interrupt drops queued
lines, and the output the terminal had already emitted is queued and filtered in the same way.

Main results: `lines_stay_whole`, `fragment_delivered`.
-/

namespace EternalTerminal
open TerminalStream List TerminalBuffer
open Option (bind_eq_some_iff elim_none getD_some map_eq_some_iff)

/-! ### The bytes of a lane -/

/-- The bytes of a terminal packet. -/
def outputOf (packet : Packet) : Bytes := (taggedBytes packet).map Prod.fst

theorem outputOf_encode {m : TerminalBuffer} (h : m.Encodable) (header : UInt8) :
    outputOf (.new header m.encode) = m.buffer.getD [] := by
  rw [outputOf, taggedBytes_encode h, map_map]
  exact map_id _

theorem CanonicalTerminal.withBuffer {packet : Packet} (h : CanonicalTerminal packet) (bytes : Bytes)
    (hbs : bytes.length < 2 ^ 64) (isStderr : Option Bool) :
    CanonicalTerminal (packet.withBuffer bytes isStderr) ∧ outputOf (packet.withBuffer bytes isStderr) = bytes := by
  have hm : TerminalBuffer.Encodable ⟨some bytes, isStderr⟩ := by
    rintro _ ⟨⟩
    exact hbs
  obtain ⟨m, -, rfl⟩ := h
  exact ⟨⟨_, hm, rfl⟩, outputOf_encode hm _⟩

theorem outputOf_flatMap (packets : List Packet) :
    packets.flatMap outputOf = (packets.flatMap taggedBytes).map Prod.fst := by
  rw [map_flatMap]
  rfl

/-- Output cut at its first newline. -/
theorem cut_newline {bytes : Bytes} (h : newline ∈ bytes) :
    ∃ body rest, newline ∉ body ∧ bytes = body ++ [newline] ++ rest ∧
      (bytes.dropWhile (· != newline)).drop 1 = rest := by
  induction bytes with
  | nil => cases h
  | cons byte bytes ih =>
    by_cases hbyte : byte = newline
    · subst hbyte
      exact ⟨[], bytes, nofun, rfl, rfl⟩
    obtain ⟨body, rest, hbody, hbs, hdrop⟩ := ih ((mem_cons.mp h).resolve_left (Ne.symm hbyte))
    refine ⟨byte :: body, rest, ?_, by rw [hbs]; rfl, ?_⟩
    · exact not_mem_cons_of_ne_of_not_mem (Ne.symm hbyte) hbody
    · rw [dropWhile_cons_of_pos (by simpa using hbyte), hdrop]

namespace OutputQueue
variable {packet : Packet}

/-- The bytes of the terminal lane. -/
def queued (q : OutputQueue) : Bytes := q.terminal.flatMap outputOf

variable {q q' : OutputQueue} {packets : List Packet} {bodies : List (Bytes × Option Bool)}

theorem appendTerminal_queued (hlane : ∀ p ∈ q.terminal, CanonicalTerminal p) (hpkt : CanonicalTerminal packet)
    (h : q.appendTerminal packet = some q') :
    (∃ terminal bytes packets pending, q' = { q with
        terminal := terminal
        terminalBytes := bytes
        terminalPackets := packets
        promotionPending := pending }) ∧
      (∀ p ∈ q'.terminal, CanonicalTerminal p) ∧ q'.queued = q.queued ++ outputOf packet := by
  obtain ⟨hfld, hadm⟩ := appendTerminal_cases h
  obtain ⟨hcan, hstr⟩ := hadm.stream hlane hpkt
  refine ⟨hfld, hcan, ?_⟩
  rw [queued, queued, outputOf_flatMap, outputOf_flatMap, hstr, map_append]
  rfl

/-- **What skipping leaves of a packet**: all of it when nothing is skipped; nothing of output without a
newline; and otherwise what comes after its first newline. -/
theorem skipThroughNewline_cases (q : OutputQueue) (h : CanonicalTerminal packet) :
    (q.skipThroughNewline packet = (some packet, q) ∧ (q.skipUntilNewline = true → outputOf packet = [])) ∨
      (q.skipUntilNewline = true ∧ newline ∉ outputOf packet ∧ q.skipThroughNewline packet = (none, q)) ∨
      (q.skipUntilNewline = true ∧ ∃ bytes left, newline ∉ bytes ∧
        outputOf packet = bytes ++ [newline] ++ left.elim [] outputOf ∧ (∀ p ∈ left, CanonicalTerminal p) ∧
        q.skipThroughNewline packet = (left, { q with skipUntilNewline := false })) := by
  cases hskip : q.skipUntilNewline with
  | false =>
    refine .inl ⟨?_, by simp⟩
    rw [skipThroughNewline, hskip]
    rfl
  | true =>
    have hpkt := h
    obtain ⟨⟨buffer, isStderr⟩, hm, rfl⟩ := h
    have hdec : decode (Packet.new terminalBuffer (encode ⟨buffer, isStderr⟩)).payload =
        some ⟨buffer, isStderr⟩ := decode_encode hm
    rw [skipThroughNewline, hskip, outputOf_encode hm, hdec]
    simp only [Bool.not_true, Bool.false_eq_true, if_false]
    cases buffer with
    | none => exact .inl ⟨rfl, fun _ => rfl⟩
    | some bytes =>
      dsimp only
      cases hnl : bytes.contains newline with
      | false =>
        refine .inr (.inl ⟨trivial, ?_, rfl⟩)
        simpa using hnl
      | true =>
        obtain ⟨body, rest, hbody, hbs, hdrop⟩ := cut_newline (by simpa using hnl)
        rw [hdrop, if_pos rfl]
        refine .inr (.inr ⟨trivial, body, ?_⟩)
        split
        next hemp =>
          refine ⟨none, hbody, ?_, by simp, rfl⟩
          rw [List.isEmpty_iff] at hemp
          simp only [getD_some, elim_none, hbs, hemp, append_nil]
        have hsh : bytes.length < 2 ^ 64 := hm bytes rfl
        rw [hbs, length_append] at hsh
        obtain ⟨hcan, hout⟩ := hpkt.withBuffer rest (by omega) isStderr
        refine ⟨some _, hbody, ?_, ?_, rfl⟩
        · rw [Option.elim_some, hout]
          exact hbs
        · rintro p ⟨⟩
          exact hcan

/-- The bytes of bodies, each with the flag of its stream. -/
def taggedBodies (bodies : List (Bytes × Option Bool)) : List (UInt8 × Bool) :=
  bodies.flatMap fun body => body.1.map fun byte => (byte, body.2.getD false)

theorem tags_cons (packet : Packet) (body : Bytes) (isStderr : Option Bool)
    (entries : List (Packet × Bytes × Option Bool)) :
    (taggedBodies (((packet, body, isStderr) :: entries).map Prod.snd)).map Prod.snd =
      body.map (fun _ => isStderr.getD false) ++ (taggedBodies (entries.map Prod.snd)).map Prod.snd := by
  simp [taggedBodies, Function.comp_def]

/-- The bodies of a lane are its bytes. -/
theorem terminalBodies_tagged (h : terminalBodies packets = some bodies) :
    packets.flatMap taggedBytes = taggedBodies bodies ∧ ∀ body ∈ bodies, body.1.length < 2 ^ 64 := by
  induction packets generalizing bodies with
  | nil =>
    cases h
    exact ⟨rfl, nofun⟩
  | cons packet packets ih =>
    rw [terminalBodies] at h
    split at h
    next body isStderr hdec =>
      obtain ⟨bodies', hbod, rfl⟩ := map_eq_some_iff.mp h
      obtain ⟨htag, hlen⟩ := ih hbod
      have hbody := encodable_of_decode hdec body rfl
      refine ⟨?_, forall_mem_cons.mpr ⟨hbody, hlen⟩⟩
      have hpkt : taggedBytes packet = body.map fun byte => (byte, isStderr.getD false) := by
        rw [taggedBytes, hdec]
        rfl
      rw [flatMap_cons, htag, hpkt]
      rfl
    · cases h

theorem terminalBodies_queued
    (h : terminalBodies packets = some bodies) : bodies.flatMap Prod.fst = packets.flatMap outputOf := by
  rw [outputOf_flatMap, (terminalBodies_tagged h).1]
  simp [taggedBodies, map_flatMap, Function.comp_def]

/-- Bytes laid over a body of one stream and over what follows it. -/
theorem zip_body_append {α β γ : Type} (tag : β) (remaining : List α) (body : List γ) (rest : List β) :
    remaining.zip (body.map (fun _ => tag) ++ rest) =
      (remaining.take body.length).map (·, tag) ++ (remaining.drop body.length).zip rest := by
  induction body generalizing remaining with
  | nil => rfl
  | cons _ body ih =>
    cases remaining with
    | nil => rfl
    | cons byte remaining =>
      rw [map_cons, cons_append, zip_cons_cons, ih]
      rfl

theorem taggedBytes_withBuffer (packet : Packet) {bytes : Bytes} (hbs : bytes.length < 2 ^ 64)
    (isStderr : Option Bool) : taggedBytes (packet.withBuffer bytes isStderr) = bytes.map (·, isStderr.getD false) := by
  have hm : TerminalBuffer.Encodable ⟨some bytes, isStderr⟩ := by
    rintro _ ⟨⟩
    exact hbs
  exact taggedBytes_encode hm _

/-- **Retained packets** share out the bytes that are kept, over the flags as they stood. -/
theorem retain_tagged {entries : List (Packet × Bytes × Option Bool)} {remaining : Bytes}
    {bytes packets bytes' packets' : Nat} {kept : List Packet}
    (hlen : ∀ e ∈ entries, e.2.1.length < 2 ^ 64)
    (h : retain entries remaining bytes packets = some (kept, bytes', packets')) :
    kept.flatMap taggedBytes = remaining.zip ((taggedBodies (entries.map Prod.snd)).map Prod.snd) ∧
      ((∀ e ∈ entries, CanonicalTerminal e.1) → ∀ p ∈ kept, CanonicalTerminal p) := by
  induction entries generalizing remaining bytes packets bytes' packets' kept with
  | nil =>
    cases h
    exact ⟨zip_nil_right.symm, fun _ => nofun⟩
  | cons entry entries ih =>
    obtain ⟨packet, body, isStderr⟩ := entry
    obtain ⟨hbody, hrest⟩ := forall_mem_cons.mp hlen
    rw [retain] at h
    obtain ⟨bytes₁, -, h⟩ := bind_eq_some_iff.mp h
    obtain ⟨packets₁, -, h⟩ := bind_eq_some_iff.mp h
    dsimp only at h hbody
    have htake : remaining.take (min remaining.length body.length) = remaining.take body.length := by
      rw [Nat.min_comm, ← take_take, take_length]
    have hdrop : remaining.drop (min remaining.length body.length) = remaining.drop body.length := by
      rcases Nat.le_total remaining.length body.length with hle | hle
      · rw [Nat.min_eq_left hle, drop_length, drop_eq_nil_of_le hle]
      · rw [Nat.min_eq_right hle]
    rw [tags_cons, zip_body_append]
    split at h
    next hcnt =>
      rw [hcnt] at htake hdrop
      rw [← htake, ← hdrop]
      exact (ih hrest h).imp_right fun hcan hlane => hcan (forall_mem_cons.mp hlane).2
    obtain ⟨⟨kept₁, bytes₂, packets₂⟩, hret, h⟩ := bind_eq_some_iff.mp h
    obtain ⟨htag, hcan⟩ := ih hrest hret
    cases h
    rw [htake]
    have hshort : (remaining.take body.length).length < 2 ^ 64 := (length_take_le _ _).trans_lt hbody
    refine ⟨?_, fun hlane => ?_⟩
    · rw [flatMap_cons, htag, hdrop, taggedBytes_withBuffer packet hshort]
    · obtain ⟨hpkt, hlane⟩ := forall_mem_cons.mp hlane
      exact forall_mem_cons.mpr ⟨(hpkt.withBuffer _ hshort isStderr).1, hcan hlane⟩

theorem length_filter_kept (s : TerminalStream) (bytes : Bytes) : (s.filter bytes).kept.length ≤ bytes.length := by
  have hlen := (s.perm_partition bytes).length_eq
  rw [length_append, (s.partition_eq bytes true).1] at hlen
  rw [TerminalStream.filter, (s.partition_eq bytes false).1]
  omega

/-- The decisions of a filter of the lane, when there are enough bytes for one. -/
def filterFates (q : OutputQueue) (threshold : Nat) : List Fate :=
  match terminalBodies q.terminal with
  | none => []
  | some bodies =>
    let bytes := bodies.flatMap Prod.fst
    if bytes.isEmpty ∨ bytes.length < threshold then [] else q.stream.fates bytes

/-- **A filter of the lane** does nothing, or leaves what the stream's filter keeps. -/
theorem filterTerminal_queued {threshold dropped : Nat}
    (hlane : ∀ p ∈ q.terminal, CanonicalTerminal p) (h : q.filterTerminal threshold = some (dropped, q')) :
    q' = q ∨
      ((∃ terminal bytes packets, q' = { q with
          skipUntilNewline := q.skipUntilNewline || (q.stream.filter q.queued).skipUntilNewline
          terminal := terminal
          terminalBytes := bytes
          terminalPackets := packets }) ∧
        (∀ p ∈ q'.terminal, CanonicalTerminal p) ∧ q'.queued = (q.stream.filter q.queued).kept ∧
        q.filterFates threshold = q.stream.fates q.queued) := by
  unfold filterTerminal at h
  unfold filterFates
  cases hbod : terminalBodies q.terminal with
  | none =>
    rw [hbod] at h
    exact .inl (Prod.mk.inj (Option.some.inj h)).2.symm
  | some bodies =>
    have hbs := terminalBodies_queued hbod
    obtain ⟨htag, hlen⟩ := terminalBodies_tagged hbod
    rw [hbod] at h
    dsimp only at h ⊢
    rw [hbs] at h ⊢
    split at h
    · exact .inl (Prod.mk.inj (Option.some.inj h)).2.symm
    rename_i henough
    obtain ⟨⟨terminal, bytes, packets⟩, hret, h⟩ := bind_eq_some_iff.mp h
    cases h
    obtain ⟨hkept, hcan⟩ := retain_tagged (fun e he => hlen _ (of_mem_zip he).2) hret
    rw [map_snd_zip (Nat.le_of_eq (terminalBodies_length hbod)), ← htag] at hkept
    refine .inr ⟨⟨_, _, _, rfl⟩, hcan fun e he => hlane _ (of_mem_zip he).1, ?_, if_neg henough⟩
    show terminal.flatMap outputOf = _
    rw [outputOf_flatMap, hkept, map_fst_zip]
    · rfl
    · rw [length_map, ← length_map Prod.fst, ← outputOf_flatMap]
      exact length_filter_kept _ _

/-- A packet that is taken is observed. -/
theorem observeTaken_output (h : CanonicalTerminal packet) :
    q.observeTaken packet = { q with beforeTake := some q.stream, stream := q.stream.observe (outputOf packet) } := by
  rw [observeTaken, if_pos h.isTerminal]
  obtain ⟨m, hm, rfl⟩ := h
  have hdec : decode (Packet.new terminalBuffer m.encode).payload = some m :=
    decode_encode hm
  rw [outputOf_encode hm, hdec]
  dsimp only
  split
  next bytes isStderr hfast =>
    rw [(decodeTerminalBuffer_encode hfast).1]
    rfl
  · rfl

end OutputQueue

/-! ### Runs -/

/-- The packet that a refused push gives back. -/
def refused : Except QueuePushError Unit → Option Packet
  | .ok () => none
  | .error (.full packet) | .error (.oversized packet) => some packet

/-- Terminal output through a queue, from the start of a line that is in a response block or not. -/
structure OutputRun where
  run : QueueRun
  block : Bool
  /-- What the terminal has emitted. -/
  emitted : Bytes
  /-- The packet the bridge holds after a refusal. -/
  held : Option Packet
  /-- The bytes of the completed terminal packets. -/
  delivered : Bytes

/-- What the bridge and the pump do. -/
inductive OutputEvent where
  | emit (packet : Packet)
  | retry
  | control (packet : Packet)
  | take
  | takeControl
  | complete
  | restoreFront
  | flushTerminalOnInterrupt
  | discardDrainedTerminal (drained : List Packet)

namespace OutputRun

/-- The bytes of the terminal packet in flight. -/
def inFlight (s : OutputRun) : Bytes := (s.run.inLane true).flatMap outputOf

def carried (s : OutputRun) : Bytes := s.delivered ++ s.inFlight ++ s.run.queue.queued

def push (s : OutputRun) (packet : Packet) : Option OutputRun :=
  (s.run.queue.push packet).map fun r => { s with run := { s.run with queue := r.2 }, held := refused r.1 }

def apply (s : OutputRun) : OutputEvent → Option OutputRun
  | .emit packet => { s with emitted := s.emitted ++ outputOf packet }.push packet
  | .retry => s.held.elim (some s) s.push
  | .control packet => (s.run.apply (.push packet)).map fun run => { s with run := run }
  | .take => (s.run.apply .take).map fun run => { s with run := run }
  | .takeControl => (s.run.apply .takeControl).map fun run => { s with run := run }
  | .complete => (s.run.apply .complete).map fun run => { s with run := run, delivered := s.delivered ++ s.inFlight }
  | .restoreFront => (s.run.apply .restoreFront).map fun run => { s with run := run }
  | .flushTerminalOnInterrupt => (s.run.apply .flushTerminalOnInterrupt).map fun run => { s with run := run }
  | .discardDrainedTerminal drained =>
    -- the bridge drains the packet it holds first
    (s.run.apply (.discardDrainedTerminal (s.held.toList ++ drained))).map fun run =>
      { s with run := run, held := none, emitted := s.emitted ++ drained.flatMap outputOf }

/-- What the run is about: one packet in flight at a time, no promotion, and output that is in control mode
throughout; a refused packet is pushed again before more is emitted. -/
def InScope (s : OutputRun) : OutputEvent → Prop
  | .emit packet =>
    s.held = none ∧ CanonicalTerminal packet ∧ ControlThroughout s.block (s.emitted ++ outputOf packet)
  | .control packet => isTerminalOutput packet = false
  | .take => s.run.inFlight = none ∧ s.run.queue.promotes = false
  | .takeControl => s.run.inFlight = none
  | .retry | .complete | .restoreFront | .flushTerminalOnInterrupt => True
  | .discardDrainedTerminal drained =>
    (∀ packet ∈ drained, CanonicalTerminal packet) ∧
      ControlThroughout s.block (s.emitted ++ drained.flatMap outputOf)

instance (s : OutputRun) : ∀ e, Decidable (s.InScope e)
  | .emit _ | .take | .discardDrainedTerminal _ => inferInstanceAs (Decidable (_ ∧ _))
  | .control packet => inferInstanceAs (Decidable (isTerminalOutput packet = false))
  | .takeControl => inferInstanceAs (Decidable (s.run.inFlight = none))
  | .retry | .complete | .restoreFront | .flushTerminalOnInterrupt => inferInstanceAs (Decidable True)

/-- No line starts with an introducer, and a line that a filter drops before its end is a pane line whose
first token has ended. -/
def CutsCleanly (s : OutputRun) : OutputEvent → Prop
  | .emit packet => NoIntroducer (s.emitted ++ outputOf packet)
  | .flushTerminalOnInterrupt => ∀ f ∈ s.run.queue.filterFates flushThreshold, f.cutsCleanly = true
  | .discardDrainedTerminal drained =>
    NoIntroducer (s.emitted ++ drained.flatMap outputOf) ∧
      (s.held.toList ++ drained ≠ [] → ∀ q ∈ s.run.queue.appendDrained (s.held.toList ++ drained),
        ∀ f ∈ q.filterFates 0, f.cutsCleanly = true)
  | _ => True

instance (s : OutputRun) : ∀ e, Decidable (s.CutsCleanly e)
  | .emit _ => inferInstanceAs (Decidable (NoIntroducer _))
  | .discardDrainedTerminal _ => inferInstanceAs (Decidable (_ ∧ _))
  | .flushTerminalOnInterrupt =>
    inferInstanceAs (Decidable (∀ f ∈ s.run.queue.filterFates flushThreshold, f.cutsCleanly = true))
  | .retry | .control _ | .take | .takeControl | .complete | .restoreFront => inferInstanceAs (Decidable True)

/-- Where a run starts: nothing is in flight or held, no line is being skipped, and the stream has read the
beginning of a line in control mode. -/
structure Start (s : OutputRun) : Prop where
  mode : s.run.queue.mode = .backpressure
  inFlight : s.run.inFlight = none
  held : s.held = none
  skips : s.run.queue.skipUntilNewline = false
  terminalLane : ∀ packet ∈ s.run.queue.terminal, CanonicalTerminal packet
  controlLane : ∀ packet ∈ s.run.queue.control, isTerminalOutput packet = false
  begun : newline ∉ s.delivered
  emitted : s.emitted = s.delivered ++ s.run.queue.queued
  control : ControlThroughout s.block s.emitted
  noIntroducer : NoIntroducer s.emitted
  observed : Observed s.run.queue.stream
  stream : s.run.queue.stream.settle = (lineStart true s.block).feed s.delivered

end OutputRun

/-- One event in scope that cuts no line. -/
inductive OutputStep : OutputRun → OutputRun → Prop where
  | step (s : OutputRun) (e : OutputEvent) (s' : OutputRun) (hscope : s.InScope e) (hcuts : s.CutsCleanly e)
      (h : s.apply e = some s') : OutputStep s s'

/-! ### What every step keeps -/

/-- A stream that has read these bytes. -/
structure StreamRead (block : Bool) (bytes : Bytes) (s : TerminalStream) : Prop where
  sound : Sound s
  settle : s.settle = (lineStart true block).feed bytes

theorem StreamRead.observe {block : Bool} {bytes : Bytes} {s : TerminalStream} (h : StreamRead block bytes s)
    (more : Bytes) : StreamRead block (bytes ++ more) (s.observe more) :=
  ⟨h.sound.observe more, by rw [settle_observe h.sound, h.settle, feed_append]⟩

/-- What was sent and what is queued is what was taken without some whole lines. -/
def CarriesLines (block : Bool) (taken sent : Bytes) (q : OutputQueue) : Prop :=
  ∃ lines kept part, Carried block lines kept part taken (sent ++ q.queued) q.skipUntilNewline

/-- The terminal lane and its counters apart, only the skip flag and the pending promotion differ. -/
structure SameBut (q q' : OutputQueue) : Prop where
  mode : q'.mode = q.mode
  control : q'.control = q.control
  stream : q'.stream = q.stream
  beforeTake : q'.beforeTake = q.beforeTake

theorem SameBut.refl (q : OutputQueue) : SameBut q q := ⟨rfl, rfl, rfl, rfl⟩

theorem SameBut.trans {q₁ q₂ q₃ : OutputQueue} (h : SameBut q₁ q₂) (h' : SameBut q₂ q₃) : SameBut q₁ q₃ :=
  ⟨h'.mode.trans h.mode, h'.control.trans h.control, h'.stream.trans h.stream, h'.beforeTake.trans h.beforeTake⟩

namespace CarriesLines
variable {block : Bool} {taken sent : Bytes} {q q' : OutputQueue} {packet : Packet}

/-- A packet is taken up to what skipping leaves of it. -/
theorem skip (h : CarriesLines block taken sent q) (hpkt : CanonicalTerminal packet) {left : Option Packet}
    (hskip : q.skipThroughNewline packet = (left, q')) :
    (∃ skips, q' = { q with skipUntilNewline := skips }) ∧ (∀ p ∈ left, CanonicalTerminal p) ∧
      (q'.skipUntilNewline = true → left.elim [] outputOf = []) ∧
      ∃ taken', taken ++ outputOf packet = taken' ++ left.elim [] outputOf ∧ CarriesLines block taken' sent q' := by
  obtain ⟨lines, kept, part, hcar⟩ := h
  rcases q.skipThroughNewline_cases hpkt with ⟨heq, hemp⟩ | ⟨hsk, hnone, heq⟩ |
    ⟨hsk, bytes, left', hbs, hout, hleft, heq⟩
  · obtain ⟨rfl, rfl⟩ := Prod.mk.inj (heq.symm.trans hskip)
    refine ⟨⟨_, rfl⟩, ?_, hemp, taken, rfl, lines, kept, part, hcar⟩
    rintro p ⟨⟩
    exact hpkt
  · obtain ⟨rfl, rfl⟩ := Prod.mk.inj (heq.symm.trans hskip)
    rw [hsk] at hcar
    refine ⟨⟨_, rfl⟩, nofun, fun _ => rfl, _, (append_nil _).symm, lines, kept, part ++ outputOf packet, ?_⟩
    rw [hsk]
    exact hcar.skipAll hnone
  · obtain ⟨rfl, rfl⟩ := Prod.mk.inj (heq.symm.trans hskip)
    rw [hsk] at hcar
    refine ⟨⟨_, rfl⟩, hleft, nofun, taken ++ (bytes ++ [newline]), ?_, _, kept, [], hcar.skipLine hbs⟩
    rw [hout, append_assoc taken]

section
variable (h : CarriesLines block taken sent q) (hlane : ∀ p ∈ q.terminal, CanonicalTerminal p)
include h hlane

/-- A packet that is admitted is taken. -/
theorem append (hpkt : CanonicalTerminal packet) (hsk : q.skipUntilNewline = true → outputOf packet = [])
    (happ : q.appendTerminal packet = some q') :
    SameBut q q' ∧ (∀ p ∈ q'.terminal, CanonicalTerminal p) ∧ CarriesLines block (taken ++ outputOf packet) sent q' := by
  obtain ⟨⟨terminal, bytes, packets, pending, heq⟩, hcan, hq⟩ :=
    OutputQueue.appendTerminal_queued hlane hpkt happ
  refine ⟨by rw [heq]; exact ⟨rfl, rfl, rfl, rfl⟩, hcan, ?_⟩
  obtain ⟨lines, kept, part, hcar⟩ := h
  have hflag : q'.skipUntilNewline = q.skipUntilNewline := by rw [heq]
  unfold CarriesLines
  rw [hflag, hq, ← append_assoc]
  cases hskip : q.skipUntilNewline with
  | true =>
    rw [hskip] at hcar
    rw [hsk hskip, append_nil, append_nil]
    exact ⟨lines, kept, part, hcar⟩
  | false =>
    rw [hskip] at hcar
    exact hcar.append _

/-- The packets that are drained are taken. -/
theorem appendDrained {drained : List Packet} (hdr : ∀ p ∈ drained, CanonicalTerminal p)
    (happ : q.appendDrained drained = some q') :
    SameBut q q' ∧ (∀ p ∈ q'.terminal, CanonicalTerminal p) ∧
      CarriesLines block (taken ++ drained.flatMap outputOf) sent q' := by
  induction drained generalizing q taken with
  | nil =>
    cases happ
    rw [flatMap_nil, append_nil]
    exact ⟨.refl _, hlane, h⟩
  | cons packet drained ih =>
    obtain ⟨hpkt, hrest⟩ := forall_mem_cons.mp hdr
    rw [OutputQueue.appendDrained] at happ
    rcases hskip : q.skipThroughNewline packet with ⟨left, q₁⟩
    rw [hskip] at happ
    obtain ⟨⟨skips, hq₁⟩, hleft, hemp, taken₁, htak, hlin⟩ := h.skip hpkt hskip
    have hsame : SameBut q q₁ := by rw [hq₁]; exact ⟨rfl, rfl, rfl, rfl⟩
    have hlane₁ : ∀ p ∈ q₁.terminal, CanonicalTerminal p := by rw [hq₁]; exact hlane
    rw [flatMap_cons, ← append_assoc, htak]
    cases left with
    | none =>
      obtain ⟨hsame', hcan, hcar⟩ := ih hlin hlane₁ hrest happ
      rw [elim_none, append_nil]
      exact ⟨hsame.trans hsame', hcan, hcar⟩
    | some left =>
      obtain ⟨q₂, happ₂, happ⟩ := bind_eq_some_iff.mp happ
      obtain ⟨hsame₂, hlane₂, hlin₂⟩ := hlin.append hlane₁ (hleft left rfl) hemp happ₂
      obtain ⟨hsame', hcan, hcar⟩ := ih hlin₂ hlane₂ hrest happ
      exact ⟨hsame.trans (hsame₂.trans hsame'), hcan, hcar⟩

/-- **A filter keeps lines whole** when it cuts cleanly. -/
theorem filter {rest : Bytes} {threshold dropped : Nat} (hctl : ControlThroughout block (taken ++ rest))
    (hintro : NoIntroducer (taken ++ rest)) (hread : StreamRead block sent q.stream)
    (hcuts : ∀ f ∈ q.filterFates threshold, f.cutsCleanly = true)
    (hfilt : q.filterTerminal threshold = some (dropped, q')) :
    SameBut q q' ∧ (∀ p ∈ q'.terminal, CanonicalTerminal p) ∧ CarriesLines block taken sent q' := by
  rcases OutputQueue.filterTerminal_queued hlane hfilt with rfl | ⟨⟨terminal, bytes, packets, heq⟩, hcan, hq, hfat⟩
  · exact ⟨.refl _, hlane, h⟩
  · refine ⟨by rw [heq]; exact ⟨rfl, rfl, rfl, rfl⟩, hcan, ?_⟩
    obtain ⟨lines, kept, part, hcar⟩ := h
    rw [hcar.taken_eq] at hctl hintro
    obtain ⟨hlin, hpart⟩ := hctl.lines hintro hcar.whole hcar.begun
    rw [hfat] at hcuts
    obtain ⟨kept', hkept⟩ := hcar.filter hlin hpart hread.sound hread.settle hcuts
    refine ⟨lines, kept', part, ?_⟩
    rw [hq, show q'.skipUntilNewline = _ by rw [heq]]
    exact hkept

end

end CarriesLines

/-- What is carried is what was taken without some whole lines; the rest of what was emitted is held. -/
structure LinesInv (s : OutputRun) : Prop where
  mode : s.run.queue.mode = .backpressure
  canonical : ∀ packet ∈ s.run.inLane true, CanonicalTerminal packet
  terminalLane : ∀ packet ∈ s.run.queue.terminal, CanonicalTerminal packet
  controlLane : ∀ packet ∈ s.run.queue.control, isTerminalOutput packet = false
  held : ∀ packet ∈ s.held, CanonicalTerminal packet
  control : ControlThroughout s.block s.emitted
  noIntroducer : NoIntroducer s.emitted
  stream : StreamRead s.block (s.delivered ++ s.inFlight) s.run.queue.stream
  before : s.run.inLane true ≠ [] → ∃ stream, s.run.queue.beforeTake = some stream ∧ StreamRead s.block s.delivered stream
  lines : ∃ taken, s.emitted = taken ++ s.held.elim [] outputOf ∧
    CarriesLines s.block taken (s.delivered ++ s.inFlight) s.run.queue

namespace LinesInv
variable {s s' : OutputRun}
variable {packet : Packet} {q : OutputQueue}

theorem new (h : s.Start) : LinesInv s := by
  have hnone : s.run.inLane true = [] := by
    rw [QueueRun.inLane, h.inFlight]
    rfl
  have hsent : s.delivered ++ s.inFlight = s.delivered := by
    rw [OutputRun.inFlight, hnone, flatMap_nil, append_nil]
  have hbeg : Carried s.block [] [] s.delivered s.delivered s.delivered false :=
    ⟨by simp, h.begun, rfl, .nil _, rfl, by simp⟩
  obtain ⟨lines, kept, part, hcar⟩ := hbeg.append s.run.queue.queued
  refine ⟨h.mode, ?_, h.terminalLane, h.controlLane, ?_, h.control, h.noIntroducer, ?_, fun hne => absurd hnone hne,
    s.emitted, ?_, lines, kept, part, ?_⟩
  · simp [hnone]
  · simp [h.held]
  · rw [hsent]
    exact ⟨h.observed.sound, h.stream⟩
  · rw [h.held, elim_none, append_nil]
  · rw [hsent, h.emitted, h.skips]
    exact hcar

/-- Steps of the terminal lane. -/
theorem of_lane (h : LinesInv s) {emitted taken : Bytes} {held : Option Packet}
    (hsame : SameBut s.run.queue q) (hlane : ∀ packet ∈ q.terminal, CanonicalTerminal packet)
    (hheld : ∀ packet ∈ held, CanonicalTerminal packet) (hctl : ControlThroughout s.block emitted)
    (hintro : NoIntroducer emitted) (hem : emitted = taken ++ held.elim [] outputOf)
    (hlin : CarriesLines s.block taken (s.delivered ++ s.inFlight) q) :
    LinesInv { s with run := { s.run with queue := q }, emitted := emitted, held := held } where
  mode := hsame.mode.trans h.mode
  canonical := h.canonical
  terminalLane := hlane
  controlLane := by rw [hsame.control]; exact h.controlLane
  held := hheld
  control := hctl
  noIntroducer := hintro
  stream := by rw [hsame.stream]; exact h.stream
  before := by rw [hsame.beforeTake]; exact h.before
  lines := ⟨taken, hem, hlin⟩

/-- A packet is pushed, for the first time or again. -/
theorem push (h : LinesInv s) {emitted taken : Bytes} (hpkt : CanonicalTerminal packet)
    (hctl : ControlThroughout s.block emitted) (hintro : NoIntroducer emitted)
    (hem : emitted = taken ++ outputOf packet)
    (hlin : CarriesLines s.block taken (s.delivered ++ s.inFlight) s.run.queue)
    (hpush : { s with emitted := emitted }.push packet = some s') : LinesInv s' := by
  obtain ⟨⟨result, q⟩, hres, rfl⟩ := map_eq_some_iff.mp hpush
  rw [OutputQueue.push, if_pos hpkt.isTerminal] at hres
  rcases hskip : s.run.queue.skipThroughNewline packet with ⟨left, q₁⟩
  obtain ⟨⟨skips, hq₁⟩, hleft, hemp, taken₁, htak, hlin₁⟩ := hlin.skip hpkt hskip
  have hsame : SameBut s.run.queue q₁ := by rw [hq₁]; exact ⟨rfl, rfl, rfl, rfl⟩
  have hlane₁ : ∀ p ∈ q₁.terminal, CanonicalTerminal p := by rw [hq₁]; exact h.terminalLane
  rw [htak] at hem
  cases left with
  | none =>
    unfold OutputQueue.pushTerminal at hres
    rw [hskip] at hres
    cases hres
    exact h.of_lane hsame hlane₁ nofun hctl hintro hem hlin₁
  | some left =>
    rcases OutputQueue.pushTerminal_rest hskip (hsame.mode.trans h.mode) hres with ⟨rfl, happ⟩ | ⟨rfl, href⟩
    · obtain ⟨hsame₂, hlane₂, hlin₂⟩ := hlin₁.append hlane₁ (hleft left rfl) hemp happ
      refine h.of_lane (hsame.trans hsame₂) hlane₂ nofun hctl hintro ?_ hlin₂
      rw [hem]
      exact (append_nil _).symm
    · have hheld : refused result = some left := by rcases href with rfl | rfl <;> rfl
      rw [hheld]
      exact h.of_lane hsame hlane₁ hleft hctl hintro hem hlin₁

/-- A packet of the control lane is pushed. -/
theorem pushControl (h : LinesInv s) (hpkt : isTerminalOutput packet = false)
    {result : Except QueuePushError Unit} (hpush : s.run.queue.push packet = some (result, q)) :
    LinesInv { s with run := { s.run with queue := q } } := by
  rw [OutputQueue.push, if_neg (by rw [hpkt]; exact Bool.false_ne_true)] at hpush
  rcases OutputQueue.pushControl_cases (Option.some.inj hpush) with ⟨-, bytes, packets, rfl⟩ | ⟨rfl, -⟩
  · exact { h with controlLane := forall_mem_append.mpr ⟨h.controlLane, forall_mem_singleton.mpr hpkt⟩ }
  · exact h

theorem inFlight_terminal (queue : OutputQueue) (h : isTerminalOutput packet = true) :
    QueueRun.inLane ⟨queue, some packet⟩ true = [packet] := by
  rw [QueueInv.inLane_some queue h, if_pos rfl]

theorem inFlight_control (queue : OutputQueue) (h : isTerminalOutput packet = false) :
    QueueRun.inLane ⟨queue, some packet⟩ true = [] := by
  rw [QueueInv.inLane_some queue h, if_neg Bool.false_ne_true]

theorem inFlight_none (h : s.run.inFlight = none) : s.inFlight = [] := by
  rw [OutputRun.inFlight, QueueRun.inLane, h]
  rfl

section
variable (h : LinesInv s)
include h

/-- What was in flight is delivered, and a packet of the control lane is taken, or none. -/
theorem settle {packet : Option Packet} (hpkt : ∀ p ∈ packet, isTerminalOutput p = false)
    (hctl : ∀ p ∈ q.control, isTerminalOutput p = false) (hmode : q.mode = s.run.queue.mode)
    (hterm : q.terminal = s.run.queue.terminal) (hstr : q.stream = s.run.queue.stream)
    (hsk : q.skipUntilNewline = s.run.queue.skipUntilNewline) :
    LinesInv { s with run := ⟨q, packet⟩, delivered := s.delivered ++ s.inFlight } := by
  have hlane : QueueRun.inLane ⟨q, packet⟩ true = [] := by
    cases packet with
    | none => rfl
    | some packet => exact inFlight_control q (hpkt packet rfl)
  have hsent : OutputRun.inFlight { s with run := ⟨q, packet⟩, delivered := s.delivered ++ s.inFlight } = [] := by
    rw [OutputRun.inFlight, hlane]
    rfl
  obtain ⟨taken, hem, hlin⟩ := h.lines
  refine ⟨hmode.trans h.mode, ?_, hterm ▸ h.terminalLane, hctl, h.held, h.control, h.noIntroducer, ?_,
    fun hne => absurd hlane hne, taken, hem, ?_⟩
  · rw [hlane]
    nofun
  · rw [hsent, append_nil]
    exact hstr ▸ h.stream
  · rw [hsent, append_nil]
    unfold CarriesLines OutputQueue.queued at hlin ⊢
    rw [hterm, hsk]
    exact hlin

theorem takeOther (hidle : s.inFlight = []) {packet : Option Packet} (hpkt : ∀ p ∈ packet, isTerminalOutput p = false)
    (hctl : ∀ p ∈ q.control, isTerminalOutput p = false) (hmode : q.mode = s.run.queue.mode)
    (hterm : q.terminal = s.run.queue.terminal) (hstr : q.stream = s.run.queue.stream)
    (hsk : q.skipUntilNewline = s.run.queue.skipUntilNewline) : LinesInv { s with run := ⟨q, packet⟩ } := by
  have hsettled := h.settle hpkt hctl hmode hterm hstr hsk
  rwa [hidle, append_nil] at hsettled

section
variable (hnone : s.run.inFlight = none)
include hnone

/-- The front of the terminal lane is taken. -/
theorem takeTerminal {rest : List Packet} (hfro : s.run.queue.terminal = packet :: rest)
    (hmode : q.mode = s.run.queue.mode) (hctl : q.control = s.run.queue.control) (hterm : q.terminal = rest)
    (hbef : q.beforeTake = some s.run.queue.stream) (hstr : q.stream = s.run.queue.stream.observe (outputOf packet))
    (hsk : q.skipUntilNewline = s.run.queue.skipUntilNewline) : LinesInv { s with run := ⟨q, some packet⟩ } := by
  obtain ⟨⟨q₀, inFlight⟩, block, emitted, held, delivered⟩ := s
  subst hnone
  dsimp only at hfro hmode hctl hbef hstr hsk
  have hlane := h.terminalLane
  dsimp only at hlane
  rw [hfro] at hlane
  obtain ⟨hpkt, hrest⟩ := forall_mem_cons.mp hlane
  have hfly := inFlight_terminal q hpkt.isTerminal
  have hsent : OutputRun.inFlight ⟨⟨q, some packet⟩, block, emitted, held, delivered⟩ = outputOf packet := by
    rw [OutputRun.inFlight, hfly, flatMap_singleton]
  have hidle : OutputRun.inFlight ⟨⟨q₀, none⟩, block, emitted, held, delivered⟩ = [] := rfl
  have hread := h.stream
  obtain ⟨taken, hem, hlin⟩ := h.lines
  rw [hidle, append_nil] at hread hlin
  refine ⟨hmode.trans h.mode, ?_, hterm ▸ hrest, hctl ▸ h.controlLane, h.held, h.control, h.noIntroducer, ?_,
    fun _ => ⟨_, hbef, hread⟩, taken, hem, ?_⟩
  · rw [hfly]
    exact forall_mem_singleton.mpr hpkt
  · rw [hsent, hstr]
    exact hread.observe _
  · rw [hsent]
    unfold CarriesLines OutputQueue.queued at hlin ⊢
    rw [hterm, hsk, append_assoc, ← flatMap_cons, ← hfro]
    exact hlin

theorem take (hpromotes : s.run.queue.promotes = false) {packet : Option Packet}
    (htake : s.run.queue.take = some (packet, q)) : LinesInv { s with run := ⟨q, packet⟩ } := by
  obtain ⟨pending, hprom⟩ := OutputQueue.promoteTerminalControl_of_not_promotes hpromotes
  unfold OutputQueue.take at htake
  rw [hprom, Option.bind_eq_bind, Option.bind_some] at htake
  rcases OutputQueue.popLane_cases { s.run.queue with promotionPending := pending } with
    ⟨front, rest, hfro, hpop⟩ | ⟨front, rest, hfro, hpop⟩ | hpop <;> rw [hpop] at htake
  · cases htake
    have hcan : CanonicalTerminal front := h.terminalLane front (by rw [hfro]; exact mem_cons_self)
    rw [OutputQueue.observeTaken_output hcan]
    exact h.takeTerminal hnone hfro rfl rfl rfl rfl rfl rfl
  · cases htake
    have hoth := h.controlLane front (by rw [hfro]; exact mem_cons_self)
    rw [OutputQueue.observeTaken, if_neg (by rw [hoth]; exact Bool.false_ne_true)]
    refine h.takeOther (inFlight_none hnone) ?_ (fun p hp => h.controlLane p ?_) rfl rfl rfl rfl
    · rintro p ⟨⟩
      exact hoth
    · rw [hfro]
      exact mem_cons_of_mem _ hp
  · cases htake
    exact h.takeOther (inFlight_none hnone) nofun h.controlLane rfl rfl rfl rfl

theorem takeControl : LinesInv { s with run := ⟨s.run.queue.takeControl.2, s.run.queue.takeControl.1⟩ } := by
  unfold OutputQueue.takeControl
  cases hfro : s.run.queue.control with
  | nil => exact h.takeOther (inFlight_none hnone) nofun h.controlLane rfl rfl rfl rfl
  | cons front rest =>
    have hctl := h.controlLane
    rw [hfro] at hctl
    obtain ⟨hoth, hrest⟩ := forall_mem_cons.mp hctl
    refine h.takeOther (inFlight_none hnone) ?_ hrest rfl rfl rfl rfl
    rintro p ⟨⟩
    exact hoth

end

/-- A completed packet is delivered. -/
theorem complete (hcomp : s.run.queue.complete packet = some q) :
    LinesInv { s with run := ⟨q, none⟩, delivered := s.delivered ++ s.inFlight } := by
  have hfld : q.mode = s.run.queue.mode ∧ q.terminal = s.run.queue.terminal ∧ q.control = s.run.queue.control ∧
      q.stream = s.run.queue.stream ∧ q.skipUntilNewline = s.run.queue.skipUntilNewline := by
    unfold OutputQueue.complete at hcomp
    split at hcomp <;>
    · obtain ⟨_, -, hcomp⟩ := bind_eq_some_iff.mp hcomp
      obtain ⟨_, -, hcomp⟩ := bind_eq_some_iff.mp hcomp
      cases hcomp
      exact ⟨rfl, rfl, rfl, rfl, rfl⟩
  obtain ⟨hmode, hterm, hctl, hstr, hsk⟩ := hfld
  exact h.settle nofun (hctl ▸ h.controlLane) hmode hterm hstr hsk

/-- A restored packet is at the front of its lane, and the stream has not read it. -/
theorem restoreFront (hfly : s.run.inFlight = some packet) :
    LinesInv { s with run := ⟨s.run.queue.restoreFront packet, none⟩ } := by
  obtain ⟨⟨q, inFlight⟩, block, emitted, held, delivered⟩ := s
  subst hfly
  obtain ⟨taken, hem, hlin⟩ := h.lines
  have hcan := h.canonical
  have hidle : ∀ q, OutputRun.inFlight ⟨⟨q, none⟩, block, emitted, held, delivered⟩ = [] := fun _ => rfl
  unfold OutputQueue.restoreFront
  cases hpkt : isTerminalOutput packet with
  | true =>
    have hlane := inFlight_terminal q hpkt
    have hsent : OutputRun.inFlight ⟨⟨q, some packet⟩, block, emitted, held, delivered⟩ = outputOf packet := by
      rw [OutputRun.inFlight, hlane, flatMap_singleton]
    obtain ⟨before, hbef, hread'⟩ := h.before (by rw [hlane]; exact cons_ne_nil _ _)
    dsimp only at hbef
    rw [hlane] at hcan
    rw [hsent] at hlin
    rw [if_pos rfl, hbef, getD_some]
    refine ⟨h.mode, nofun, ?_, h.controlLane, h.held, h.control, h.noIntroducer, ?_,
      fun hne => absurd rfl hne, taken, hem, ?_⟩
    · exact forall_mem_cons.mpr ⟨hcan packet mem_cons_self, h.terminalLane⟩
    · rw [hidle, append_nil]
      exact hread'
    · unfold CarriesLines OutputQueue.queued at hlin ⊢
      rw [hidle, append_nil, flatMap_cons, ← append_assoc]
      exact hlin
  | false =>
    have hlane := inFlight_control q hpkt
    have hsent : OutputRun.inFlight ⟨⟨q, some packet⟩, block, emitted, held, delivered⟩ = [] := by
      rw [OutputRun.inFlight, hlane, flatMap_nil]
    rw [if_neg Bool.false_ne_true]
    exact h.takeOther hsent nofun (forall_mem_cons.mpr ⟨hpkt, h.controlLane⟩) rfl rfl rfl rfl

/-- **Every step keeps lines whole.** -/
theorem step (hstep : OutputStep s s') : LinesInv s' := by
  obtain ⟨e, _, hscope, hcuts, hap⟩ := hstep
  obtain ⟨taken, hem, hlin⟩ := h.lines
  cases e with
  | emit packet =>
    obtain ⟨hheld, hpkt, hctl⟩ := hscope
    rw [hheld, elim_none, append_nil] at hem
    exact h.push hpkt hctl hcuts (by rw [hem]) hlin hap
  | retry =>
    rw [OutputRun.apply] at hap
    cases hheld : s.held with
    | none =>
      rw [hheld] at hap
      cases hap
      exact h
    | some packet =>
      rw [hheld] at hap hem
      exact h.push (h.held packet hheld) h.control h.noIntroducer hem hlin hap
  | control packet =>
    simp only [OutputRun.apply, QueueRun.apply, Option.map_map] at hap
    obtain ⟨⟨result, q⟩, hpush, rfl⟩ := map_eq_some_iff.mp hap
    exact h.pushControl hscope hpush
  | take =>
    simp only [OutputRun.apply, QueueRun.apply, Option.map_map] at hap
    obtain ⟨⟨packet, q⟩, htake, rfl⟩ := map_eq_some_iff.mp hap
    exact h.take hscope.1 hscope.2 htake
  | takeControl =>
    cases hap
    exact h.takeControl hscope
  | complete =>
    obtain ⟨run, hrun, rfl⟩ := map_eq_some_iff.mp hap
    unfold QueueRun.apply at hrun
    cases hfly : s.run.inFlight with
    | none =>
      rw [hfly] at hrun
      cases hrun
      rw [inFlight_none hfly, append_nil]
      exact h
    | some packet =>
      rw [hfly] at hrun
      obtain ⟨q, hcomp, rfl⟩ := map_eq_some_iff.mp hrun
      exact h.complete hcomp
  | restoreFront =>
    obtain ⟨run, hrun, rfl⟩ := map_eq_some_iff.mp hap
    unfold QueueRun.apply at hrun
    cases hfly : s.run.inFlight with
    | none =>
      rw [hfly] at hrun
      cases hrun
      exact h
    | some packet =>
      rw [hfly] at hrun
      cases hrun
      exact h.restoreFront hfly
  | flushTerminalOnInterrupt =>
    simp only [OutputRun.apply, QueueRun.apply, Option.map_map] at hap
    obtain ⟨⟨dropped, q⟩, hfilt, rfl⟩ := map_eq_some_iff.mp hap
    obtain ⟨hsame, hlane, hlin'⟩ := hlin.filter h.terminalLane (hem ▸ h.control)
      (hem ▸ h.noIntroducer) h.stream hcuts hfilt
    exact h.of_lane hsame hlane h.held h.control h.noIntroducer hem hlin'
  | discardDrainedTerminal drained =>
    obtain ⟨hdr, hctl⟩ := hscope
    obtain ⟨hintro, hcuts⟩ := hcuts
    simp only [OutputRun.apply, QueueRun.apply, Option.map_map] at hap
    obtain ⟨⟨dropped, q⟩, hdis, rfl⟩ := map_eq_some_iff.mp hap
    obtain ⟨q₁, happ, hdis⟩ := bind_eq_some_iff.mp hdis
    have hall : ∀ p ∈ s.held.toList ++ drained, CanonicalTerminal p :=
      forall_mem_append.mpr ⟨fun p hp => h.held p (Option.mem_toList.mp hp), hdr⟩
    obtain ⟨hsame, hlane, hlin₁⟩ := hlin.appendDrained h.terminalLane hall happ
    have hem' : s.emitted ++ drained.flatMap outputOf =
        taken ++ (s.held.toList ++ drained).flatMap outputOf := by
      rw [hem, flatMap_append, append_assoc]
      cases s.held <;> simp
    split at hdis
    · cases hdis
      exact h.of_lane hsame hlane (by simp) hctl hintro (hem'.trans (append_nil _).symm) hlin₁
    rename_i hne
    have hread := h.stream
    rw [← hsame.stream] at hread
    have hall' := hem'.trans (append_nil _).symm
    obtain ⟨hsame₂, hlane₂, hlin₂⟩ := hlin₁.filter hlane (hall' ▸ hctl) (hall' ▸ hintro) hread
      (hcuts (by simpa [List.isEmpty_iff] using hne) q₁ happ) hdis
    exact h.of_lane (hsame.trans hsame₂) hlane₂ (by simp) hctl hintro hall' hlin₂

end

end LinesInv

/-- **Lines stay whole through interrupts.**  In every run whose filters cut cleanly, what the terminal emitted is
whole lines, the beginning of another and what the bridge holds; what is delivered, in flight and queued is these
lines in order, without some that are neither in a response block nor needed, then the beginning of the other unless
it is of such a line. -/
theorem lines_stay_whole {start s : OutputRun} (hstart : start.Start)
    (hrun : Relation.ReflTransGen OutputStep start s) :
    ∃ (lines kept : List Bytes) (part last : Bytes), (∀ line ∈ lines, IsLine line) ∧ newline ∉ part ∧
      s.emitted = lines.flatten ++ part ++ s.held.elim [] outputOf ∧ Thins s.block lines kept ∧
      s.carried = kept.flatten ++ last ∧
      (last = part ∨ last = [] ∧ lines.foldl blockNext s.block = false ∧ ∀ rest, needed (part ++ rest) = false) := by
  have h : LinesInv s := reach_invariant (P := LinesInv) hrun (.new hstart) fun _ _ => .step
  obtain ⟨taken, hemitted, lines, kept, part, hcarried⟩ := h.lines
  refine ⟨lines, kept, part, if s.run.queue.skipUntilNewline then [] else part, hcarried.whole, hcarried.begun, ?_,
    hcarried.thins, hcarried.carried_eq, ?_⟩
  · rw [hemitted, hcarried.taken_eq]
  · split
    next hskips =>
      exact .inr ⟨rfl, hcarried.cut hskips⟩
    · exact .inl rfl

/-- The state after events that `allowed` lets through, or `start` when it does not. -/
def outputAfter (allowed : OutputRun → OutputEvent → Bool) (start : OutputRun) (es : List OutputEvent) : OutputRun :=
  (execEvents (fun s e => if allowed s e then s.apply e else none) start es).getD start

theorem output_reach {start : OutputRun} (es : List OutputEvent)
    (h : (execEvents (fun s e => if decide (s.InScope e ∧ s.CutsCleanly e) then s.apply e else none) start es).isSome) :
    Relation.ReflTransGen OutputStep start (outputAfter (fun s e => decide (s.InScope e ∧ s.CutsCleanly e)) start es) := by
  refine reach_getD (fun s e t ht => ?_) es h
  obtain ⟨hallow, ht⟩ := Option.ite_none_right_eq_some.mp ht
  rw [decide_eq_true_eq] at hallow
  exact .step s e t hallow.1 hallow.2 ht

/-- A queue that has delivered the introducer. -/
def introduced : OutputRun :=
  ⟨⟨{ OutputQueue.new .backpressure 1000 with stream := TerminalStream.default.observe tmuxDcs }, none⟩,
    false, [], none, []⟩

theorem introduced_start : introduced.Start where
  mode := rfl
  inFlight := rfl
  held := rfl
  skips := rfl
  terminalLane := nofun
  controlLane := nofun
  begun := nofun
  emitted := rfl
  control := by decide +kernel
  noIntroducer := by decide +kernel
  observed := .observe tmuxDcs .default
  stream := by decide +kernel

/-- A response, and a pane line that an interrupt cuts. -/
def cutEvents : List OutputEvent :=
  [.emit (terminalPacket "%begin 1\nok\n%end 1\n%output %1 a"), .take, .restoreFront,
    .discardDrainedTerminal [terminalPacket "bc"], .emit (terminalPacket "d\n%window-add @1\n%out"), .take, .complete]

theorem lines_stay_whole_cut :
    let s := outputAfter (fun s e => decide (s.InScope e ∧ s.CutsCleanly e)) introduced cutEvents
    s.carried = ascii "%begin 1\nok\n%end 1\n%window-add @1\n%out" ∧
      ∃ (lines kept : List Bytes) (part last : Bytes), (∀ line ∈ lines, IsLine line) ∧ newline ∉ part ∧
        s.emitted = lines.flatten ++ part ++ s.held.elim [] outputOf ∧ Thins s.block lines kept ∧
        s.carried = kept.flatten ++ last ∧
        (last = part ∨ last = [] ∧ lines.foldl blockNext s.block = false ∧ ∀ rest, needed (part ++ rest) = false) :=
  ⟨by decide +kernel, lines_stay_whole introduced_start (output_reach cutEvents (by decide +kernel))⟩

/-- **The rest of a dropped line can be delivered**: a filter drops the beginning of a line that is no pane
line, and the rest of it is taken for a line of its own. -/
theorem fragment_delivered : ∃ start es, OutputRun.Start start ∧
    (execEvents (fun s e => if s.InScope e then s.apply e else none) start es).any fun s =>
      (splitLines s.delivered).any fun line =>
        line.getLast? == some newline && !(splitLines s.emitted).contains line :=
  ⟨introduced, [.discardDrainedTerminal [terminalPacket "foo"], .emit (terminalPacket "bar\n"), .take, .complete],
    introduced_start, by decide +kernel⟩

end EternalTerminal
