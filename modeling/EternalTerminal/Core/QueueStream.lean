import EternalTerminal.Core.FlowControl

/-!
# Core — output queues as streams

What an `OutputQueue` is for: the terminal lane carries a stream of bytes, each of stdout or of stderr,
the control lane a sequence of packets.  How the bytes are cut into packets does not matter, and the
queue merges what it has not handed out yet.
-/

namespace EternalTerminal
open List TerminalBuffer

/-! ### The stream of a lane -/

/-- A terminal packet in the encoding the protobuf library gives its message. -/
def CanonicalTerminal (packet : Packet) : Prop :=
  ∃ m : TerminalBuffer, m.Encodable ∧ packet = .new terminalBuffer m.encode

instance (packet : Packet) : Decidable (CanonicalTerminal packet) :=
  match hdecode : decode packet.payload with
  | none => .isFalse fun ⟨m, hm, hpacket⟩ => by
      rw [hpacket, Packet.new, decode_encode hm] at hdecode
      cases hdecode
  | some m =>
    decidable_of_iff ((∀ bytes ∈ m.buffer, bytes.length < 2 ^ 64) ∧ packet = .new terminalBuffer m.encode)
      ⟨fun h => ⟨m, h⟩, fun ⟨m', hm', hpacket⟩ => by
        rw [hpacket, Packet.new, decode_encode hm'] at hdecode
        obtain rfl := Option.some.inj hdecode
        exact ⟨hm', hpacket⟩⟩

/-- The bytes of a terminal packet, each with the flag of its stream. -/
def taggedBytes (packet : Packet) : List (UInt8 × Bool) :=
  match decode packet.payload with
  | some m => (m.buffer.getD []).map fun byte => (byte, m.isStderr.getD false)
  | none => []

theorem taggedBytes_encode {m : TerminalBuffer} (h : m.Encodable) (header : UInt8) :
    taggedBytes (.new header m.encode) = (m.buffer.getD []).map fun byte => (byte, m.isStderr.getD false) := by
  rw [taggedBytes, Packet.new, decode_encode h]

namespace CanonicalTerminal

theorem isTerminal {packet : Packet} (h : CanonicalTerminal packet) : isTerminalOutput packet = true := by
  obtain ⟨m, -, rfl⟩ := h
  rfl

/-- **A merge appends** the bytes of the packet to those of the last one, under its flag. -/
theorem append {packet back grown : Packet} {bytes : Bytes} {isStderr : Bool} (hback : CanonicalTerminal back)
    (hpkt : CanonicalTerminal packet) (hdec : decodeTerminalBuffer packet.payload = some (bytes, isStderr))
    (happ : appendTerminalBuffer back bytes isStderr coalescedTerminalBytes = some grown) :
    CanonicalTerminal grown ∧ taggedBytes grown = taggedBytes back ++ taggedBytes packet := by
  obtain ⟨⟨body, flag⟩, hbody, rfl⟩ := hback
  obtain ⟨m, hm, rfl⟩ := hpkt
  obtain ⟨hbs, hflag⟩ := decodeTerminalBuffer_encode hdec
  cases body with
  | none =>
    -- without a buffer there is nothing to merge into
    have hnone : decodeTerminalBuffer (encode ⟨none, flag⟩) = none := by
      rcases flag with _ | _ | _ <;> rfl
    simp [appendTerminalBuffer, Packet.new, hnone] at happ
  | some body =>
    obtain ⟨hsame, hlen, rfl⟩ := appendTerminalBuffer_encode happ
    have hgr : TerminalBuffer.Encodable ⟨some (body ++ bytes), if isStderr then some true else none⟩ := by
      intro joined hjoined
      obtain rfl := Option.some.inj hjoined
      rw [length_append]
      unfold coalescedTerminalBytes at hlen
      omega
    rw [encodeTerminalBuffer_eq]
    refine ⟨⟨_, hgr, rfl⟩, ?_⟩
    rw [taggedBytes_encode hgr, taggedBytes_encode hbody, taggedBytes_encode hm, hbs, hflag]
    dsimp only
    rw [hsame]
    cases isStderr <;> simp

end CanonicalTerminal

/-! ### Operations in backpressure mode -/

namespace OutputQueue
variable {packet : Packet} {result : Except QueuePushError Unit} {q q' : OutputQueue}

/-- A promotion would rewrite the terminal lane. -/
def promotes (q : OutputQueue) : Bool :=
  q.promotionPending && decide (flushThreshold ≤ q.terminalBytes) &&
    (terminalBodies q.terminal).any fun bodies => (q.stream.promoteControl (bodies.flatMap Prod.fst)).isSome

theorem promoteTerminalControl_of_not_promotes (h : q.promotes = false) :
    ∃ pending, q.promoteTerminalControl = some { q with promotionPending := pending } := by
  unfold promoteTerminalControl
  split
  · exact ⟨q.promotionPending, rfl⟩
  rename_i hpend
  rw [not_or, Bool.not_eq_true', Bool.not_eq_false, Nat.not_lt] at hpend
  refine ⟨false, ?_⟩
  dsimp only
  cases hbod : terminalBodies q.terminal with
  | none => rfl
  | some bodies =>
    have hnone : q.stream.promoteControl (bodies.flatMap Prod.fst) = none := by
      simpa [promotes, hpend.1, hpend.2, hbod] using h
    dsimp only
    rw [hnone]

/-- The lane after the packet is admitted as `fitted`. -/
def Admitted (fitted : Packet) (lane lane' : List Packet) : Prop :=
  lane' = lane ++ [fitted] ∨
    ∃ init back grown bytes isStderr, lane = init ++ [back] ∧ lane' = init ++ [grown] ∧
      grown.header = back.header ∧ decodeTerminalBuffer fitted.payload = some (bytes, isStderr) ∧
      appendTerminalBuffer back bytes isStderr coalescedTerminalBytes = some grown

/-- Admission queues the packet on its own or merges it into the last one, and touches nothing else of the
lanes. -/
theorem appendTerminal_cases (h : q.appendTerminal packet = some q') :
    (∃ terminal bytes packets pending, q' = { q with
        terminal := terminal
        terminalBytes := bytes
        terminalPackets := packets
        promotionPending := pending }) ∧ Admitted packet q.terminal q'.terminal := by
  unfold appendTerminal at h
  dsimp only at h
  split at h
  next back grown hmrg =>
    obtain ⟨_, -, h⟩ := Option.bind_eq_some_iff.mp h
    cases h
    obtain ⟨hlast, hhd, -, bytes, isStderr, hdec, happ⟩ := merged_some hmrg
    exact ⟨⟨_, _, _, _, rfl⟩, .inr ⟨_, _, _, bytes, isStderr, hlast, rfl, hhd, hdec, happ⟩⟩
  · cases h
    exact ⟨⟨_, _, _, _, rfl⟩, .inl rfl⟩

/-- Admission adds the packet's bytes at the end of the terminal stream. -/
theorem Admitted.stream {lane lane' : List Packet} (h : Admitted packet lane lane')
    (hlane : ∀ p ∈ lane, CanonicalTerminal p) (hpkt : CanonicalTerminal packet) :
    (∀ p ∈ lane', CanonicalTerminal p) ∧
      lane'.flatMap taggedBytes = lane.flatMap taggedBytes ++ taggedBytes packet := by
  rcases h with rfl | ⟨init, back, grown, bytes, isStderr, rfl, rfl, -, hdec, happ⟩
  · exact ⟨forall_mem_append.mpr ⟨hlane, forall_mem_singleton.mpr hpkt⟩, by simp⟩
  · obtain ⟨hinit, hback⟩ := forall_mem_append.mp hlane
    obtain ⟨hgr, htag⟩ := (forall_mem_singleton.mp hback).append hpkt hdec happ
    exact ⟨forall_mem_append.mpr ⟨hinit, forall_mem_singleton.mpr hgr⟩, by simp [htag]⟩

/-- With room for the packet nothing is evicted. -/
theorem evict_of_room {limit wanted bytes packets : Nat} (terminal : List Packet)
    (hbs : bytes + wanted ≤ limit) (hpkts : packets < maxPacketsPerLane) :
    evict limit wanted terminal bytes packets = some (true, terminal, bytes, packets) := by
  cases terminal with
  | nil => simp [evict, hbs, hpkts]
  | cons removed terminal =>
    rw [evict, if_neg]
    rw [not_or, Nat.not_lt, Nat.not_le]
    exact ⟨hbs, hpkts⟩

theorem skipThroughNewline_of_not (h : q.skipUntilNewline = false) : q.skipThroughNewline packet = (some packet, q) := by
  rw [skipThroughNewline, h]
  rfl

/-- **A terminal push in backpressure mode** that leaves `rest` of the packet past a line that is skipped:
it is admitted, or comes back from a queue that has done nothing but skip. -/
theorem pushTerminal_rest {q₁ : OutputQueue} {rest : Packet}
    (hrest : q.skipThroughNewline packet = (some rest, q₁)) (hmode : q₁.mode = .backpressure)
    (h : q.pushTerminal packet = some (result, q')) :
    (result = .ok () ∧ q₁.appendTerminal rest = some q') ∨
      (q' = q₁ ∧ (result = .error (.full rest) ∨ result = .error (.oversized rest))) := by
  unfold pushTerminal at h
  rw [hrest] at h
  dsimp only at h
  by_cases hsize : q₁.limit < packetCost rest
  · rw [fit, if_pos hsize, if_pos hmode] at h
    cases h
    exact .inr ⟨rfl, .inr rfl⟩
  rw [fit, if_neg hsize] at h
  dsimp only at h
  split at h
  · cases h
    exact .inr ⟨rfl, .inl rfl⟩
  rename_i hroom
  rw [not_and, not_or, Nat.not_lt, Nat.not_le] at hroom
  obtain ⟨hbs, hpkts⟩ := hroom hmode
  rw [evict_of_room q₁.terminal hbs hpkts] at h
  simp only [Option.bind_eq_bind, Option.bind_some, if_true] at h
  obtain ⟨q₂, happ, hq⟩ := Option.bind_eq_some_iff.mp h
  cases hq
  exact .inl ⟨rfl, happ⟩

/-- A control push appends the packet as it is, or gives it back from a queue that has not changed. -/
theorem pushControl_cases (h : q.pushControl packet = (result, q')) :
    (result = .ok () ∧ ∃ bytes packets, q' = { q with
        controlBytes := bytes
        controlPackets := packets
        control := q.control ++ [packet] }) ∨
      (q' = q ∧ (result = .error (.full packet) ∨ result = .error (.oversized packet))) := by
  unfold pushControl at h
  dsimp only at h
  split at h
  · cases h
    exact .inr ⟨rfl, .inr rfl⟩
  split at h
  · cases h
    exact .inr ⟨rfl, .inl rfl⟩
  · cases h
    exact .inl ⟨rfl, _, _, rfl⟩

/-- What is popped is the front of its lane. -/
theorem popLane_cases (q : OutputQueue) :
    (∃ packet rest, q.terminal = packet :: rest ∧ q.popLane = (some packet, { q with terminal := rest })) ∨
      (∃ packet rest, q.control = packet :: rest ∧ q.popLane = (some packet, { q with control := rest })) ∨
      q.popLane = (none, q) := by
  unfold popLane
  split
  · exact .inl ⟨_, _, ‹_›, rfl⟩
  · exact .inr (.inl ⟨_, _, ‹_›, rfl⟩)
  · exact .inr (.inl ⟨_, _, ‹_›, rfl⟩)
  · exact .inl ⟨_, _, ‹_›, rfl⟩
  · exact .inr (.inr rfl)

end OutputQueue

/-- The packets of one lane. -/
def ofLane (terminal : Bool) (packets : List Packet) : List Packet :=
  packets.filter fun packet => isTerminalOutput packet == terminal

@[simp] theorem ofLane_append (terminal : Bool) (packets₁ packets₂ : List Packet) :
    ofLane terminal (packets₁ ++ packets₂) = ofLane terminal packets₁ ++ ofLane terminal packets₂ :=
  filter_append _ _

theorem ofLane_singleton (terminal : Bool) (packet : Packet) :
    ofLane terminal [packet] = if isTerminalOutput packet = terminal then [packet] else [] := by
  cases terminal <;> cases hp : isTerminalOutput packet <;> simp [ofLane, hp]

end EternalTerminal
