import EternalTerminal.Core.OutputInterrupt
import EternalTerminal.Core.TerminalBuffer
import EternalTerminal.Lib.History
import EternalTerminal.Lib.Machine

/-!
# Core — output queues

`OutputQueue`: the terminal lane and the control lane of a session's output, each bounded in bytes and
packets.  A packet that is taken stays counted until it is completed.  Terminal output is merged into
the last queued packet, filtered on an interrupt and promoted past pane output, each time re-encoded.

An operation is `none` where the code would panic: a subtraction that underflows, a slice that is out
of range.

Main results: `output_queue_accounts`, `swallowed_push_over_limit`.
-/

namespace EternalTerminal
open Machine List TerminalBuffer
open Option (bind_eq_bind bind_some)

def frameBytes : Nat := 4
def maxPacketsPerLane : Nat := 4096
def coalescedTerminalBytes : Nat := 16 * 1024

/-- What a full lane does with terminal output. -/
inductive FlowControlMode where
  | backpressure
  | discard
  deriving DecidableEq

/-- The two lanes. -/
inductive OutputLane where
  | terminal
  | control
  deriving DecidableEq

/-- A push that was refused, with its packet. -/
inductive QueuePushError where
  | full (packet : Packet)
  | oversized (packet : Packet)
  deriving DecidableEq

/-- `flow_control.rs`: both lanes with their counters, and the stream that was handed out. -/
structure OutputQueue where
  mode : FlowControlMode
  limit : Nat
  terminalBytes : Nat
  controlBytes : Nat
  terminalPackets : Nat
  controlPackets : Nat
  terminal : List Packet
  control : List Packet
  preferTerminal : Bool
  stream : TerminalStream
  beforeTake : Option TerminalStream
  skipUntilNewline : Bool
  promotionPending : Bool
  deriving DecidableEq

def packetCost (packet : Packet) : Nat := packet.wireLen + frameBytes

def isTerminalOutput (packet : Packet) : Bool := packet.header == terminalBuffer

/-! ### Re-encoding -/

/-- The bytes and the flag of every packet; `none` when one has none. -/
def terminalBodies : List Packet → Option (List (Bytes × Option Bool))
  | [] => some []
  | packet :: packets =>
    match decode packet.payload with
    | some ⟨some body, isStderr⟩ => (terminalBodies packets).map ((body, isStderr) :: ·)
    | _ => none

/-- The packet with another buffer. -/
def Packet.withBuffer (packet : Packet) (buffer : Bytes) (isStderr : Option Bool) : Packet :=
  .new packet.header (encode ⟨some buffer, isStderr⟩)

/-- The longest suffix whose encoding fits, by bisection between `low` and `high`. -/
def fittingSuffix (bytes : Bytes) (isStderr : Option Bool) (limit low high : Nat) : Nat :=
  if low < high then
    let middle := low + (high - low + 1) / 2
    let encoded := encode ⟨some (bytes.drop (bytes.length - middle)), isStderr⟩
    if encoded.length + (headerLen + frameBytes) ≤ limit then
      fittingSuffix bytes isStderr limit middle high
    else fittingSuffix bytes isStderr limit low (middle - 1)
  else low
  termination_by high - low
  decreasing_by all_goals omega

def truncateTerminal (packet : Packet) (limit : Nat) : Except Packet Packet :=
  match decode packet.payload with
  | some ⟨some bytes, isStderr⟩ =>
    let low := fittingSuffix bytes isStderr limit 0 bytes.length
    .ok (packet.withBuffer (bytes.drop (bytes.length - low)) isStderr)
  | _ => .error packet

namespace OutputQueue

def new (mode : FlowControlMode) (limit : Nat) : OutputQueue where
  mode := mode
  limit := limit
  terminalBytes := 0
  controlBytes := 0
  terminalPackets := 0
  controlPackets := 0
  terminal := []
  control := []
  preferTerminal := true
  stream := .default
  beforeTake := none
  skipUntilNewline := false
  promotionPending := false

/-! ### Pushing -/

/-- After an interrupt flush cut a line short: what of the packet remains past the next newline. -/
def skipThroughNewline (q : OutputQueue) (packet : Packet) : Option Packet × OutputQueue :=
  if !q.skipUntilNewline then (some packet, q)
  else match decode packet.payload with
    | some ⟨some bytes, isStderr⟩ =>
      if bytes.contains newline then
        let q := { q with skipUntilNewline := false }
        let rest := (bytes.dropWhile (· != newline)).drop 1
        if rest.isEmpty then (none, q) else (some (packet.withBuffer rest isStderr), q)
      else (none, q)
    | _ => (some packet, q)

/-- The bytes of the packet may open or belong to tmux control mode. -/
def mayContainControl (q : OutputQueue) (packet : Packet) : Bool :=
  match decodeTerminalBuffer packet.payload with
  | some (bytes, _) => q.stream.mayContainControl bytes
  | none =>
    match decode packet.payload with
    | some message => q.stream.mayContainControl (message.buffer.getD [])
    | none => true

/-- The last queued packet with this packet's bytes merged into it, when they may be merged. -/
def merged (q : OutputQueue) (packet : Packet) : Option (Packet × Packet) :=
  match q.terminal.getLast?, decodeTerminalBuffer packet.payload with
  | some back, some (bytes, isStderr) =>
    (appendTerminalBuffer back bytes isStderr coalescedTerminalBytes).map fun grown => (back, grown)
  | _, _ => none

/-- Admit terminal output without the lane bound. -/
def appendTerminal (q : OutputQueue) (packet : Packet) : Option OutputQueue :=
  let q := { q with promotionPending := q.promotionPending || q.mayContainControl packet }
  match q.merged packet with
  | some (back, grown) => do
      let terminalBytes ← checkedSub q.terminalBytes (packetCost back)
      return { q with
        terminalBytes := terminalBytes + packetCost grown
        terminal := q.terminal.dropLast ++ [grown] }
  | none =>
    some { q with
      terminalBytes := q.terminalBytes + packetCost packet
      terminalPackets := q.terminalPackets + 1
      terminal := q.terminal ++ [packet] }

/-- The eviction loop: packets leave at the front until `wanted` bytes and one packet fit.  `false`
when the lane is empty and they still do not. -/
def evict (limit wanted : Nat) : List Packet → Nat → Nat → Option (Bool × List Packet × Nat × Nat)
  | [], bytes, packets =>
    some (decide (bytes + wanted ≤ limit) && decide (packets < maxPacketsPerLane), [], bytes, packets)
  | removed :: terminal, bytes, packets =>
    if limit < bytes + wanted ∨ maxPacketsPerLane ≤ packets then do
      let bytes ← checkedSub bytes (packetCost removed)
      let packets ← checkedSub packets 1
      evict limit wanted terminal bytes packets
    else some (true, removed :: terminal, bytes, packets)

/-- A packet over the limit is refused, or in discard mode truncated. -/
def fit (q : OutputQueue) (packet : Packet) : Except QueuePushError Packet :=
  if q.limit < packetCost packet then
    if q.mode = .backpressure then .error (.oversized packet)
    else (truncateTerminal packet q.limit).mapError .oversized
  else .ok packet

/-- Terminal output goes in as far as the mode and the limit allow. -/
def pushTerminal (q : OutputQueue) (packet : Packet) :
    Option (Except QueuePushError Unit × OutputQueue) :=
  match q.skipThroughNewline packet with
  -- nothing of the packet is left, and the lane is not looked at
  | (none, q) => some (.ok (), q)
  | (some packet, q) =>
    match q.fit packet with
    | .error e => some (.error e, q)
    | .ok packet =>
      let wanted := packetCost packet
      if q.mode = .backpressure ∧
          (q.limit < q.terminalBytes + wanted ∨ maxPacketsPerLane ≤ q.terminalPackets) then
        some (.error (.full packet), q)
      else do
        let (fits, terminal, terminalBytes, terminalPackets) ←
          evict q.limit wanted q.terminal q.terminalBytes q.terminalPackets
        let q := { q with
          terminal := terminal
          terminalBytes := terminalBytes
          terminalPackets := terminalPackets }
        if fits then return (.ok (), ← q.appendTerminal packet) else return (.error (.full packet), q)

/-- A control packet goes in whole, or comes back. -/
def pushControl (q : OutputQueue) (packet : Packet) : Except QueuePushError Unit × OutputQueue :=
  let wanted := packetCost packet
  if q.limit < wanted then (.error (.oversized packet), q)
  else if q.limit < q.controlBytes + wanted ∨ maxPacketsPerLane ≤ q.controlPackets then
    (.error (.full packet), q)
  else
    (.ok (), { q with
      controlBytes := q.controlBytes + wanted
      controlPackets := q.controlPackets + 1
      control := q.control ++ [packet] })

def push (q : OutputQueue) (packet : Packet) : Option (Except QueuePushError Unit × OutputQueue) :=
  if isTerminalOutput packet then q.pushTerminal packet else some (q.pushControl packet)

/-! ### Taking -/

/-- Every queued packet gets its share of the promoted bytes, as long as its own. -/
def redistribute : List (Packet × Bytes × Option Bool) → Bytes → Nat → Option (List Packet × Nat)
  | [], _, terminalBytes => some ([], terminalBytes)
  | (packet, body, isStderr) :: rest, remaining, terminalBytes => do
      let terminalBytes ← checkedSub terminalBytes (packetCost packet)
      -- the slice is in range
      guard (body.length ≤ remaining.length)
      let packet := packet.withBuffer (remaining.take body.length) isStderr
      let (packets, terminalBytes) ←
        redistribute rest (remaining.drop body.length) (terminalBytes + packetCost packet)
      return (packet :: packets, terminalBytes)

/-- A pending promotion moves control lines to the front of the lane. -/
def promoteTerminalControl (q : OutputQueue) : Option OutputQueue :=
  if !q.promotionPending ∨ q.terminalBytes < flushThreshold then some q
  else
    let q := { q with promotionPending := false }
    match terminalBodies q.terminal with
    | none => some q
    | some bodies =>
      match q.stream.promoteControl (bodies.flatMap Prod.fst) with
      | none => some q
      | some promoted => do
          let (terminal, terminalBytes) ←
            redistribute (q.terminal.zip bodies) promoted q.terminalBytes
          return { q with terminal := terminal, terminalBytes := terminalBytes }

/-- The front of the preferred lane, or else of the other. -/
def popLane (q : OutputQueue) : Option Packet × OutputQueue :=
  match q.preferTerminal, q.terminal, q.control with
  | true, packet :: terminal, _ => (some packet, { q with terminal := terminal })
  | true, [], packet :: control => (some packet, { q with control := control })
  | false, _, packet :: control => (some packet, { q with control := control })
  | false, packet :: terminal, [] => (some packet, { q with terminal := terminal })
  | _, [], [] => (none, q)

def observeTaken (q : OutputQueue) (packet : Packet) : OutputQueue :=
  if isTerminalOutput packet then
    let stream := match decodeTerminalBuffer packet.payload with
      | some (bytes, _) => q.stream.observe bytes
      | none =>
        match decode packet.payload with
        | some message => q.stream.observe (message.buffer.getD [])
        | none => q.stream
    { q with beforeTake := some q.stream, stream := stream }
  else q

/-- The next packet, of the lanes in turn. -/
def take (q : OutputQueue) : Option (Option Packet × OutputQueue) := do
  let q ← q.promoteTerminalControl
  match q.popLane with
  | (none, q) => return (none, q)
  | (some packet, q) =>
    return (some packet, { q with preferTerminal := !q.preferTerminal }.observeTaken packet)

def takeControl (q : OutputQueue) : Option Packet × OutputQueue :=
  match q.control with
  | [] => (none, q)
  | packet :: control => (some packet, { q with control := control, preferTerminal := true })

/-- A packet that was taken counts no more. -/
def complete (q : OutputQueue) (packet : Packet) : Option OutputQueue :=
  if isTerminalOutput packet then do
    let terminalBytes ← checkedSub q.terminalBytes (packetCost packet)
    let terminalPackets ← checkedSub q.terminalPackets 1
    return { q with terminalBytes := terminalBytes, terminalPackets := terminalPackets }
  else do
    let controlBytes ← checkedSub q.controlBytes (packetCost packet)
    let controlPackets ← checkedSub q.controlPackets 1
    return { q with controlBytes := controlBytes, controlPackets := controlPackets }

/-- A packet that was taken is put back. -/
def restoreFront (q : OutputQueue) (packet : Packet) : OutputQueue :=
  if isTerminalOutput packet then
    { q with
      stream := q.beforeTake.getD q.stream
      beforeTake := none
      terminal := packet :: q.terminal }
  else { q with control := packet :: q.control }

/-! ### Interrupts -/

/-- Every queued packet gets as much of the kept bytes as it held; one that gets none goes. -/
def retain : List (Packet × Bytes × Option Bool) → Bytes → Nat → Nat → Option (List Packet × Nat × Nat)
  | [], _, terminalBytes, terminalPackets => some ([], terminalBytes, terminalPackets)
  | (packet, body, isStderr) :: rest, remaining, terminalBytes, terminalPackets => do
      let terminalBytes ← checkedSub terminalBytes (packetCost packet)
      let terminalPackets ← checkedSub terminalPackets 1
      let count := min remaining.length body.length
      -- a packet that is left without bytes goes
      if count = 0 then retain rest remaining terminalBytes terminalPackets
      else
        let packet := packet.withBuffer (remaining.take count) isStderr
        let (retained, terminalBytes, terminalPackets) ←
          retain rest (remaining.drop count) (terminalBytes + packetCost packet) (terminalPackets + 1)
        return (packet :: retained, terminalBytes, terminalPackets)

/-- An interrupt drops what it may of the queued output. -/
def filterTerminal (q : OutputQueue) (threshold : Nat) : Option (Nat × OutputQueue) :=
  match terminalBodies q.terminal with
  | none => some (0, q)
  | some bodies =>
    let bytes := bodies.flatMap Prod.fst
    if bytes.isEmpty ∨ bytes.length < threshold then some (0, q)
    else do
      let result := q.stream.filter bytes
      let (terminal, terminalBytes, terminalPackets) ←
        retain (q.terminal.zip bodies) result.kept q.terminalBytes q.terminalPackets
      return (result.dropped, { q with
        skipUntilNewline := q.skipUntilNewline || result.skipUntilNewline
        terminal := terminal
        terminalBytes := terminalBytes
        terminalPackets := terminalPackets })

def flushTerminalOnInterrupt (q : OutputQueue) : Option (Nat × OutputQueue) :=
  q.filterTerminal flushThreshold

/-- The loop over the drained packets. -/
def appendDrained (q : OutputQueue) : List Packet → Option OutputQueue
  | [] => some q
  | packet :: drained =>
    match q.skipThroughNewline packet with
    | (none, q) => q.appendDrained drained
    | (some packet, q) => (q.appendTerminal packet).bind fun q => q.appendDrained drained

/-- Drained output is queued and filtered. -/
def discardDrainedTerminal (q : OutputQueue) (drained : List Packet) : Option (Nat × OutputQueue) := do
  let q ← q.appendDrained drained
  if drained.isEmpty then return (0, q) else q.filterTerminal 0

def setLimit (q : OutputQueue) (limit : Nat) : OutputQueue := { q with limit := limit }

def isEmpty (q : OutputQueue) : Bool := q.terminal.isEmpty && q.control.isEmpty

/-- A lane that refused a packet has room for a batch again. -/
def canResume (q : OutputQueue) (lane : OutputLane) (freeBytes : Nat) : Bool :=
  let resumes (bytes packets : Nat) : Bool :=
    decide (packets ≤ maxPacketsPerLane / 2) && decide (bytes + freeBytes ≤ q.limit)
  match lane with
  | .terminal =>
    if q.mode = .discard then decide (freeBytes ≤ q.limit)
    else resumes q.terminalBytes q.terminalPackets
  | .control => resumes q.controlBytes q.controlPackets

end OutputQueue

/-! ### LaneAccounts -/

def laneCost (packets : List Packet) : Nat := (packets.map packetCost).sum

@[simp] theorem laneCost_nil : laneCost [] = 0 := rfl

@[simp] theorem laneCost_cons (packet : Packet) (packets : List Packet) :
    laneCost (packet :: packets) = packetCost packet + laneCost packets := by
  simp [laneCost]

@[simp] theorem laneCost_append (packets₁ packets₂ : List Packet) :
    laneCost (packets₁ ++ packets₂) = laneCost packets₁ + laneCost packets₂ := by
  simp [laneCost]

/-- The counters are the queued packets and `te`, `ce` bytes and `tk`, `ck` packets besides; the lanes
are told apart by the header. -/
structure LaneAccounts (q : OutputQueue) (te tk ce ck : Nat) : Prop where
  terminalBytes : q.terminalBytes = laneCost q.terminal + te
  terminalPackets : q.terminalPackets = q.terminal.length + tk
  controlBytes : q.controlBytes = laneCost q.control + ce
  controlPackets : q.controlPackets = q.control.length + ck
  terminalLane : ∀ packet ∈ q.terminal, isTerminalOutput packet = true
  controlLane : ∀ packet ∈ q.control, isTerminalOutput packet = false

/-- The first of a lane's packets is taken off its counters. -/
theorem checkedSub_laneCost (packet : Packet) (packets : List Packet) (e : Nat) :
    checkedSub (laneCost (packet :: packets) + e) (packetCost packet) = some (laneCost packets + e) := by
  rw [laneCost_cons, Nat.add_assoc, checkedSub_add]

theorem checkedSub_length (packet : Packet) (packets : List Packet) (k : Nat) :
    checkedSub ((packet :: packets).length + k) 1 = some (packets.length + k) := by
  rw [length_cons, Nat.add_comm packets.length 1, Nat.add_assoc, checkedSub_add]

namespace OutputQueue

/-- The loop evicts packets from the front, and stops with room or with an empty lane. -/
theorem evict_spec (limit wanted e k : Nat) (packets : List Packet) :
    ∃ fits kept, evict limit wanted packets (laneCost packets + e) (packets.length + k) =
        some (fits, kept, laneCost kept + e, kept.length + k) ∧ kept <:+ packets ∧
      (fits = true → laneCost kept + e + wanted ≤ limit ∧ kept.length + k < maxPacketsPerLane) := by
  induction packets with
  | nil =>
    refine ⟨_, [], rfl, suffix_rfl, fun hfits => ?_⟩
    simpa using hfits
  | cons removed packets ih =>
    rw [evict]
    split
    · obtain ⟨fits, kept, hevict, hsuf, hroom⟩ := ih
      refine ⟨fits, kept, ?_, hsuf.trans (suffix_cons _ _), hroom⟩
      rw [checkedSub_laneCost, checkedSub_length]
      exact hevict
    rename_i hcond
    refine ⟨true, removed :: packets, rfl, suffix_rfl, fun _ => ?_⟩
    rw [not_or, Nat.not_lt, Nat.not_le] at hcond
    exact hcond

/-- What a filter retains is accounted for. -/
theorem retain_spec (e k : Nat) (packets : List (Packet × Bytes × Option Bool)) (remaining : Bytes) :
    ∃ kept, retain packets remaining (laneCost (packets.map Prod.fst) + e)
        ((packets.map Prod.fst).length + k) = some (kept, laneCost kept + e, kept.length + k) ∧
      ((∀ packet ∈ packets.map Prod.fst, isTerminalOutput packet = true) →
        ∀ packet ∈ kept, isTerminalOutput packet = true) := by
  induction packets generalizing remaining e k with
  | nil => exact ⟨[], rfl, fun h => h⟩
  | cons entry packets ih =>
    obtain ⟨packet, body, isStderr⟩ := entry
    rw [retain, map_cons, checkedSub_laneCost, checkedSub_length, bind_eq_bind,
      bind_some, bind_eq_bind, bind_some]
    -- the packet's own cost moves between the lane and what is counted besides it
    by_cases hcnt : min remaining.length body.length = 0
    · obtain ⟨kept, hret, hlane⟩ := ih e k remaining
      refine ⟨kept, ?_, fun h => hlane (forall_mem_cons.mp h).2⟩
      dsimp only
      rw [if_pos hcnt, hret]
    obtain ⟨grown, hgr⟩ : ∃ grown,
        packet.withBuffer (remaining.take (min remaining.length body.length)) isStderr = grown :=
      ⟨_, rfl⟩
    obtain ⟨kept, hret, hlane⟩ := ih (e + packetCost grown) (k + 1)
      (remaining.drop (min remaining.length body.length))
    refine ⟨grown :: kept, ?_, fun h => ?_⟩
    · dsimp only
      rw [if_neg hcnt, hgr, Nat.add_assoc, Nat.add_assoc, hret]
      simp only [bind_some, laneCost_cons, length_cons, pure, Option.some.injEq, Prod.mk.injEq, true_and]
      omega
    · obtain ⟨hpkt, hrest⟩ := forall_mem_cons.mp h
      exact forall_mem_cons.mpr ⟨hgr ▸ hpkt, hlane hrest⟩

/-- What a promotion rewrites is accounted for, given as many bytes as there were. -/
theorem redistribute_spec (e : Nat) (packets : List (Packet × Bytes × Option Bool)) (remaining : Bytes)
    (hlen : remaining.length = (packets.flatMap fun entry => entry.2.1).length) :
    ∃ rewritten, redistribute packets remaining (laneCost (packets.map Prod.fst) + e) =
        some (rewritten, laneCost rewritten + e) ∧ rewritten.length = packets.length ∧
      ((∀ packet ∈ packets.map Prod.fst, isTerminalOutput packet = true) →
        ∀ packet ∈ rewritten, isTerminalOutput packet = true) := by
  induction packets generalizing remaining e with
  | nil => exact ⟨[], rfl, rfl, fun h => h⟩
  | cons entry packets ih =>
    obtain ⟨packet, body, isStderr⟩ := entry
    rw [flatMap_cons, length_append] at hlen
    have hbody : body.length ≤ remaining.length := by rw [hlen]; exact Nat.le_add_right _ _
    obtain ⟨grown, hgr⟩ : ∃ grown,
        packet.withBuffer (remaining.take body.length) isStderr = grown := ⟨_, rfl⟩
    obtain ⟨rewritten, hrew, hcnt, hlane⟩ := ih (e + packetCost grown)
      (remaining.drop body.length) (by rw [length_drop, hlen, Nat.add_sub_cancel_left])
    refine ⟨grown :: rewritten, ?_, by rw [length_cons, hcnt]; rfl, fun h => ?_⟩
    · rw [redistribute, map_cons, checkedSub_laneCost, bind_eq_bind, bind_some, hgr]
      simp only [guard, if_pos hbody, Option.pure_def, bind_eq_bind, bind_some,
        Nat.add_assoc, hrew, laneCost_cons, Option.some.injEq, Prod.mk.injEq, true_and]
      omega
    · obtain ⟨hpkt, hrest⟩ := forall_mem_cons.mp h
      exact forall_mem_cons.mpr ⟨hgr ▸ hpkt, hlane hrest⟩

/-- A merge replaces the last packet by one that costs no more than the two. -/
theorem merged_some {q : OutputQueue} {packet back grown : Packet} (h : q.merged packet = some (back, grown)) :
    q.terminal = q.terminal.dropLast ++ [back] ∧ grown.header = back.header ∧
      packetCost grown ≤ packetCost back + packetCost packet ∧
      ∃ bytes isStderr, decodeTerminalBuffer packet.payload = some (bytes, isStderr) ∧
        appendTerminalBuffer back bytes isStderr coalescedTerminalBytes = some grown := by
  unfold merged at h
  split at h
  next back' bytes isStderr hlast hdec =>
    obtain ⟨grown', happ, heq⟩ := Option.map_eq_some_iff.mp h
    cases heq
    obtain ⟨hhd, hlen⟩ := appendTerminalBuffer_some happ (by decide)
    have hbs := length_decodeTerminalBuffer hdec
    refine ⟨?_, hhd, ?_, bytes, isStderr, hdec, happ⟩
    · obtain ⟨front, hfro⟩ := List.getLast?_eq_some_iff.mp hlast
      rw [hfro, dropLast_concat]
    · unfold packetCost Packet.wireLen frameBytes
      omega
  · cases h

/-- Skipping changes nothing but the flag, and keeps the header. -/
theorem skipThroughNewline_spec (q : OutputQueue) (packet : Packet) :
    (∃ skips, (q.skipThroughNewline packet).2 = { q with skipUntilNewline := skips }) ∧
      ∀ rest ∈ (q.skipThroughNewline packet).1, rest.header = packet.header := by
  have hsame : ∃ skips, q = { q with skipUntilNewline := skips } := ⟨q.skipUntilNewline, rfl⟩
  unfold skipThroughNewline
  split
  · exact ⟨hsame, fun rest hrest => by rw [← Option.some.inj hrest]⟩
  split
  · split
    · dsimp only
      split
      · exact ⟨⟨false, rfl⟩, nofun⟩
      · exact ⟨⟨false, rfl⟩, fun rest hrest => by rw [← Option.some.inj hrest]; rfl⟩
    · exact ⟨hsame, nofun⟩
  · exact ⟨hsame, fun rest hrest => by rw [← Option.some.inj hrest]⟩

theorem fit_header {q : OutputQueue} {packet fitted : Packet} (h : q.fit packet = .ok fitted) :
    fitted.header = packet.header := by
  unfold fit at h
  split at h
  · split at h
    · cases h
    · unfold truncateTerminal at h
      split at h <;> cases h
      rfl
  · cases h
    rfl

/-- Every packet has a body, in order. -/
theorem terminalBodies_length {packets : List Packet} {bodies : List (Bytes × Option Bool)}
    (h : terminalBodies packets = some bodies) : bodies.length = packets.length := by
  induction packets generalizing bodies with
  | nil =>
    cases h
    rfl
  | cons packet packets ih =>
    rw [terminalBodies] at h
    split at h
    · obtain ⟨bodies', hbod, rfl⟩ := Option.map_eq_some_iff.mp h
      rw [length_cons, length_cons, ih hbod]
    · cases h

end OutputQueue

namespace LaneAccounts
variable {q : OutputQueue} {te tk ce ck : Nat} {packet : Packet}

section
variable (h : LaneAccounts q te tk ce ck)
include h

/-- The terminal lane is replaced, with its counters. -/
theorem set_terminal {q' : OutputQueue} (h₁ : q'.terminalBytes = laneCost q'.terminal + te)
    (h₂ : q'.terminalPackets = q'.terminal.length + tk) (h₃ : q'.controlBytes = q.controlBytes)
    (h₄ : q'.controlPackets = q.controlPackets) (h₅ : q'.control = q.control)
    (h₆ : ∀ packet ∈ q'.terminal, isTerminalOutput packet = true) : LaneAccounts q' te tk ce ck :=
  ⟨h₁, h₂, by rw [h₃, h₅, h.controlBytes], by rw [h₄, h₅, h.controlPackets], h₆,
    fun packet hp => h.controlLane packet (h₅ ▸ hp)⟩

theorem appendTerminal (hp : isTerminalOutput packet = true) :
    ∃ q', q.appendTerminal packet = some q' ∧ LaneAccounts q' te tk ce ck ∧
      q'.terminalBytes ≤ q.terminalBytes + packetCost packet ∧
      q'.terminalPackets ≤ q.terminalPackets + 1 := by
  unfold OutputQueue.appendTerminal
  dsimp only
  split
  next back grown hmrg =>
    obtain ⟨hback, hhd, hcost, -⟩ := OutputQueue.merged_some hmrg
    dsimp only at hback
    -- the last packet is in the count, so its cost can be taken off
    have hbs : q.terminalBytes = packetCost back + (laneCost q.terminal.dropLast + te) := by
      rw [h.terminalBytes, hback, laneCost_append, laneCost_cons, laneCost_nil, dropLast_concat]
      omega
    have hlane : ∀ p ∈ q.terminal.dropLast ++ [grown], isTerminalOutput p = true := by
      obtain ⟨hinit, hlast⟩ := forall_mem_append.mp (hback ▸ h.terminalLane)
      rw [forall_mem_singleton, isTerminalOutput, ← hhd] at hlast
      exact forall_mem_append.mpr ⟨hinit, forall_mem_singleton.mpr hlast⟩
    have hlen : q.terminal.length = q.terminal.dropLast.length + 1 := by
      rw [hback, length_append, dropLast_concat]
      rfl
    rw [hbs, checkedSub_add]
    refine ⟨_, rfl, h.set_terminal ?_ ?_ rfl rfl rfl hlane, ?_, Nat.le_succ _⟩
    · show laneCost q.terminal.dropLast + te + packetCost grown = laneCost (q.terminal.dropLast ++ [grown]) + te
      rw [laneCost_append, laneCost_cons, laneCost_nil]
      omega
    · show q.terminalPackets = (q.terminal.dropLast ++ [grown]).length + tk
      rw [h.terminalPackets, hlen, length_append]
      rfl
    · show laneCost q.terminal.dropLast + te + packetCost grown ≤ _
      omega
  · refine ⟨_, rfl, h.set_terminal ?_ ?_ rfl rfl rfl ?_, le_rfl, le_rfl⟩
    · show q.terminalBytes + packetCost packet = laneCost (q.terminal ++ [packet]) + te
      rw [h.terminalBytes, laneCost_append, laneCost_cons, laneCost_nil]
      omega
    · show q.terminalPackets + 1 = (q.terminal ++ [packet]).length + tk
      rw [h.terminalPackets, length_append, length_singleton]
      omega
    · exact forall_mem_append.mpr ⟨h.terminalLane, forall_mem_singleton.mpr hp⟩

theorem skipThroughNewline (packet : Packet) : LaneAccounts (q.skipThroughNewline packet).2 te tk ce ck := by
  obtain ⟨⟨skips, hskip⟩, -⟩ := q.skipThroughNewline_spec packet
  rw [hskip]
  exact { h with }

/-- A terminal push never panics; one that is `Ok` has kept the lane within its bounds, unless all of
the packet was skipped. -/
theorem pushTerminal (hp : isTerminalOutput packet = true) :
    ∃ result q', q.pushTerminal packet = some (result, q') ∧ LaneAccounts q' te tk ce ck ∧
      ((q.skipThroughNewline packet).1 = none → q' = (q.skipThroughNewline packet).2) ∧
      ((q.skipThroughNewline packet).1 ≠ none → result = .ok () →
        q'.terminalBytes ≤ q.limit ∧ q'.terminalPackets ≤ maxPacketsPerLane) := by
  obtain ⟨⟨skips, hskip⟩, hhd⟩ := q.skipThroughNewline_spec packet
  have hacc := h.skipThroughNewline packet
  have hlim : (q.skipThroughNewline packet).2.limit = q.limit := by rw [hskip]
  unfold OutputQueue.pushTerminal
  rcases hres : q.skipThroughNewline packet with ⟨rest, q₁⟩
  rw [hres] at hacc hlim hhd
  cases rest with
  | none => exact ⟨.ok (), q₁, rfl, hacc, fun _ => rfl, fun hne => absurd rfl hne⟩
  | some rest =>
    have hrest : isTerminalOutput rest = true := by
      rw [isTerminalOutput, hhd rest rfl]
      exact hp
    dsimp only at hacc hlim ⊢
    cases hfit : q₁.fit rest with
    | error e => exact ⟨.error e, q₁, rfl, hacc, nofun, nofun⟩
    | ok fitted =>
      have hfitted : isTerminalOutput fitted = true := by
        rw [isTerminalOutput, OutputQueue.fit_header hfit]
        exact hrest
      dsimp only
      split
      · exact ⟨.error (.full fitted), q₁, rfl, hacc, nofun, nofun⟩
      -- in backpressure mode the loop finds room at once
      obtain ⟨fits, kept, hevict, hsuf, hroom⟩ :=
        OutputQueue.evict_spec q₁.limit (packetCost fitted) te tk q₁.terminal
      rw [← hacc.terminalBytes, ← hacc.terminalPackets] at hevict
      rw [hevict]
      have hevicted : LaneAccounts { q₁ with
          terminal := kept
          terminalBytes := laneCost kept + te
          terminalPackets := kept.length + tk } te tk ce ck :=
        hacc.set_terminal rfl rfl rfl rfl rfl fun p hmem => hacc.terminalLane p (hsuf.subset hmem)
      cases fits with
      | false => exact ⟨.error (.full fitted), _, rfl, hevicted, nofun, nofun⟩
      | true =>
        obtain ⟨q₂, happ, hacc₂, hbs, hpkts⟩ := hevicted.appendTerminal hfitted
        obtain ⟨hfits, hslot⟩ := hroom rfl
        refine ⟨.ok (), q₂, ?_, hacc₂, nofun, fun _ _ => ⟨?_, ?_⟩⟩
        · simp only [bind_eq_bind, bind_some, if_true, happ]
          rfl
        · rw [← hlim]
          exact hbs.trans hfits
        · exact hpkts.trans hslot

theorem pushControl (hp : isTerminalOutput packet = false) :
    LaneAccounts (q.pushControl packet).2 te tk ce ck ∧
      ((q.pushControl packet).1 = .ok () →
        (q.pushControl packet).2.controlBytes ≤ q.limit ∧
          (q.pushControl packet).2.controlPackets ≤ maxPacketsPerLane) := by
  unfold OutputQueue.pushControl
  dsimp only
  split
  · exact ⟨h, nofun⟩
  split
  · exact ⟨h, nofun⟩
  rename_i hroom
  rw [not_or, Nat.not_lt, Nat.not_le] at hroom
  refine ⟨⟨h.terminalBytes, h.terminalPackets, ?_, ?_, h.terminalLane, ?_⟩, fun _ => hroom⟩
  · show q.controlBytes + packetCost packet = laneCost (q.control ++ [packet]) + ce
    rw [h.controlBytes, laneCost_append, laneCost_cons, laneCost_nil]
    omega
  · show q.controlPackets + 1 = (q.control ++ [packet]).length + ck
    rw [h.controlPackets, length_append, length_singleton]
    omega
  · exact forall_mem_append.mpr ⟨h.controlLane, forall_mem_singleton.mpr hp⟩

theorem promoteTerminalControl : ∃ q', q.promoteTerminalControl = some q' ∧ LaneAccounts q' te tk ce ck := by
  unfold OutputQueue.promoteTerminalControl
  split
  · exact ⟨q, rfl, h⟩
  have hcleared : LaneAccounts { q with promotionPending := false } te tk ce ck :=
    { h with }
  dsimp only
  cases hbod : terminalBodies q.terminal with
  | none => exact ⟨_, rfl, hcleared⟩
  | some bodies =>
    dsimp only
    cases hprom : q.stream.promoteControl (bodies.flatMap Prod.fst) with
    | none => exact ⟨_, rfl, hcleared⟩
    | some promoted =>
      have hlen := OutputQueue.terminalBodies_length hbod
      have hfst : (q.terminal.zip bodies).map Prod.fst = q.terminal :=
        map_fst_zip hlen.ge
      -- promotion loses no byte, so every packet finds as many as it had
      have hsnd : ((q.terminal.zip bodies).flatMap fun entry => entry.2.1) =
          bodies.flatMap Prod.fst := by
        conv_rhs => rw [← map_snd_zip hlen.le, flatMap_map]
      obtain ⟨rewritten, hrew, hcnt, hlane⟩ := OutputQueue.redistribute_spec te
        (q.terminal.zip bodies) promoted
        (by rw [(TerminalStream.perm_promoteControl hprom).length_eq, hsnd])
      rw [hfst, ← h.terminalBytes] at hrew
      rw [hfst] at hlane
      dsimp only
      rw [hrew]
      refine ⟨_, rfl, hcleared.set_terminal rfl ?_ rfl rfl rfl (hlane h.terminalLane)⟩
      show q.terminalPackets = rewritten.length + tk
      rw [h.terminalPackets, hcnt, length_zip, hlen, Nat.min_self]

theorem filterTerminal (threshold : Nat) :
    ∃ dropped q', q.filterTerminal threshold = some (dropped, q') ∧ LaneAccounts q' te tk ce ck := by
  unfold OutputQueue.filterTerminal
  cases hbod : terminalBodies q.terminal with
  | none => exact ⟨0, q, rfl, h⟩
  | some bodies =>
    dsimp only
    split
    · exact ⟨0, q, rfl, h⟩
    have hlen := OutputQueue.terminalBodies_length hbod
    have hfst : (q.terminal.zip bodies).map Prod.fst = q.terminal := map_fst_zip hlen.ge
    obtain ⟨kept, hret, hlane⟩ := OutputQueue.retain_spec te tk (q.terminal.zip bodies)
      (q.stream.filter (bodies.flatMap Prod.fst)).kept
    rw [hfst, ← h.terminalBytes, ← h.terminalPackets] at hret
    rw [hfst] at hlane
    rw [hret]
    exact ⟨_, _, rfl, h.set_terminal rfl rfl rfl rfl rfl (hlane h.terminalLane)⟩

end

section
variable {drained : List Packet} (h : LaneAccounts q te tk ce ck)
  (hdr : ∀ packet ∈ drained, isTerminalOutput packet = true)
include h hdr

theorem appendDrained : ∃ q', q.appendDrained drained = some q' ∧ LaneAccounts q' te tk ce ck := by
  induction drained generalizing q with
  | nil => exact ⟨q, rfl, h⟩
  | cons packet drained ih =>
    obtain ⟨hpkt, hrest⟩ := forall_mem_cons.mp hdr
    have hhd := (q.skipThroughNewline_spec packet).2
    have hacc := h.skipThroughNewline packet
    rw [OutputQueue.appendDrained]
    rcases hres : q.skipThroughNewline packet with ⟨rest, q₁⟩
    rw [hres] at hacc hhd
    cases rest with
    | none => exact ih hacc hrest
    | some rest =>
      have hterm : isTerminalOutput rest = true := by
        rw [isTerminalOutput, hhd rest rfl]
        exact hpkt
      obtain ⟨q₂, happ, hacc₂, -, -⟩ := hacc.appendTerminal hterm
      obtain ⟨q₃, hdrain, hacc₃⟩ := ih hacc₂ hrest
      exact ⟨q₃, by dsimp only; rw [happ, bind_some, hdrain], hacc₃⟩

theorem discardDrainedTerminal :
    ∃ dropped q', q.discardDrainedTerminal drained = some (dropped, q') ∧ LaneAccounts q' te tk ce ck := by
  obtain ⟨q₁, hdrain, hacc⟩ := h.appendDrained hdr
  unfold OutputQueue.discardDrainedTerminal
  rw [hdrain, bind_eq_bind, bind_some]
  split
  · exact ⟨0, q₁, rfl, hacc⟩
  · exact hacc.filterTerminal 0

end

end LaneAccounts

/-! ### Runs -/

/-- A queue, and the packet last taken from it while it is neither completed nor restored. -/
structure QueueRun where
  queue : OutputQueue
  inFlight : Option Packet

/-- A call on the queue. -/
inductive QueueEvent where
  | push (packet : Packet)
  | take
  | takeControl
  | complete
  | restoreFront
  | flushTerminalOnInterrupt
  | discardDrainedTerminal (drained : List Packet)
  | setLimit (limit : Nat)

namespace QueueRun

def apply (s : QueueRun) : QueueEvent → Option QueueRun
  | .push packet => (s.queue.push packet).map fun r => { s with queue := r.2 }
  | .take => s.queue.take.map fun r => ⟨r.2, r.1⟩
  | .takeControl => some ⟨s.queue.takeControl.2, s.queue.takeControl.1⟩
  | .complete =>
    match s.inFlight with
    | none => some s
    | some packet => (s.queue.complete packet).map fun queue => ⟨queue, none⟩
  | .restoreFront =>
    match s.inFlight with
    | none => some s
    | some packet => some ⟨s.queue.restoreFront packet, none⟩
  | .flushTerminalOnInterrupt => s.queue.flushTerminalOnInterrupt.map fun r => { s with queue := r.2 }
  | .discardDrainedTerminal drained =>
    (s.queue.discardDrainedTerminal drained).map fun r => { s with queue := r.2 }
  | .setLimit limit => some { s with queue := s.queue.setLimit limit }

/-- One packet is in flight at most, and what is drained is terminal output, as the code asserts. -/
def Allowed (s : QueueRun) : QueueEvent → Prop
  | .take | .takeControl => s.inFlight = none
  | .discardDrainedTerminal drained => ∀ packet ∈ drained, isTerminalOutput packet = true
  | _ => True

instance (s : QueueRun) : ∀ e, Decidable (s.Allowed e)
  | .take | .takeControl => inferInstanceAs (Decidable (s.inFlight = none))
  | .discardDrainedTerminal drained =>
    inferInstanceAs (Decidable (∀ packet ∈ drained, isTerminalOutput packet = true))
  | .push _ | .complete | .restoreFront | .flushTerminalOnInterrupt | .setLimit _ =>
    inferInstanceAs (Decidable True)

/-- The packet in flight, when it is of the lane. -/
def inLane (s : QueueRun) (terminal : Bool) : List Packet :=
  s.inFlight.toList.filter fun packet => isTerminalOutput packet == terminal

end QueueRun

/-- One allowed call. -/
inductive QueueStep : QueueRun → QueueRun → Prop where
  | step (s : QueueRun) (e : QueueEvent) (s' : QueueRun) (hallowed : s.Allowed e)
      (h : s.apply e = some s') : QueueStep s s'

/-- The counters are the queued packets of each lane and the one in flight. -/
def QueueInv (s : QueueRun) : Prop :=
  LaneAccounts s.queue (laneCost (s.inLane true)) (s.inLane true).length (laneCost (s.inLane false))
    (s.inLane false).length

namespace QueueInv
variable {s : QueueRun}
variable {packet : Packet} {q : OutputQueue}

theorem inLane_some (queue : OutputQueue) {lane : Bool} (h : isTerminalOutput packet = lane) (terminal : Bool) :
    QueueRun.inLane ⟨queue, some packet⟩ terminal = if lane = terminal then [packet] else [] := by
  subst h
  cases terminal <;> cases hlane : isTerminalOutput packet <;> simp [QueueRun.inLane, hlane]

/-- A packet in flight is counted in its own lane. -/
theorem iff_terminal (hp : isTerminalOutput packet = true) :
    QueueInv ⟨q, some packet⟩ ↔ LaneAccounts q (packetCost packet) 1 0 0 := by
  unfold QueueInv
  rw [inLane_some q hp, inLane_some q hp]
  simp

theorem iff_control (hp : isTerminalOutput packet = false) :
    QueueInv ⟨q, some packet⟩ ↔ LaneAccounts q 0 0 (packetCost packet) 1 := by
  unfold QueueInv
  rw [inLane_some q hp, inLane_some q hp]
  simp

theorem new (mode : FlowControlMode) (limit : Nat) : QueueInv ⟨.new mode limit, none⟩ :=
  ⟨rfl, rfl, rfl, rfl, nofun, nofun⟩

/-- What a packet leaves behind in the terminal lane when it is taken. -/
theorem take_terminal (h : LaneAccounts q 0 0 0 0) {rest : List Packet}
    (hq : q.terminal = packet :: rest) : QueueInv ⟨{ q with terminal := rest }, some packet⟩ := by
  obtain ⟨h₁, h₂, h₃, h₄, h₅, h₆⟩ := h
  rw [hq] at h₁ h₂ h₅
  rw [laneCost_cons, Nat.add_zero, Nat.add_comm] at h₁
  obtain ⟨hpkt, hrest⟩ := forall_mem_cons.mp h₅
  exact (iff_terminal hpkt).mpr ⟨h₁, h₂, h₃, h₄, hrest, h₆⟩

theorem take_control (h : LaneAccounts q 0 0 0 0) {rest : List Packet}
    (hq : q.control = packet :: rest) : QueueInv ⟨{ q with control := rest }, some packet⟩ := by
  obtain ⟨h₁, h₂, h₃, h₄, h₅, h₆⟩ := h
  rw [hq] at h₃ h₄ h₆
  rw [laneCost_cons, Nat.add_zero, Nat.add_comm] at h₃
  obtain ⟨hpkt, hrest⟩ := forall_mem_cons.mp h₆
  exact (iff_control hpkt).mpr ⟨h₁, h₂, h₃, h₄, h₅, hrest⟩

theorem popLane (h : LaneAccounts q 0 0 0 0) : QueueInv ⟨q.popLane.2, q.popLane.1⟩ := by
  unfold OutputQueue.popLane
  split
  next hterm =>
    exact take_terminal h hterm
  next hctl =>
    exact take_control h hctl
  next hctl =>
    exact take_control h hctl
  next hterm _ =>
    exact take_terminal h hterm
  · exact h

theorem observeTaken {inFlight : Option Packet} (h : QueueInv ⟨q, inFlight⟩)
    (packet : Packet) : QueueInv ⟨q.observeTaken packet, inFlight⟩ := by
  unfold OutputQueue.observeTaken
  split
  · exact { h with }
  · exact h

theorem take (h : QueueInv s) (hnone : s.inFlight = none) :
    ∃ packet q', s.queue.take = some (packet, q') ∧ QueueInv ⟨q', packet⟩ := by
  obtain ⟨q, inFlight⟩ := s
  subst hnone
  obtain ⟨q₁, hprom, hacc⟩ := LaneAccounts.promoteTerminalControl h
  have hpop := popLane hacc
  unfold OutputQueue.take
  rw [hprom, bind_eq_bind, bind_some]
  rcases hres : q₁.popLane with ⟨packet, q₂⟩
  rw [hres] at hpop
  cases packet with
  | none => exact ⟨none, q₂, rfl, hpop⟩
  | some packet =>
    have hprefer : QueueInv ⟨{ q₂ with preferTerminal := !q₂.preferTerminal }, some packet⟩ :=
      { hpop with }
    exact ⟨some packet, _, rfl, hprefer.observeTaken packet⟩

theorem takeControl (h : QueueInv s) (hnone : s.inFlight = none) :
    QueueInv ⟨s.queue.takeControl.2, s.queue.takeControl.1⟩ := by
  obtain ⟨q, inFlight⟩ := s
  subst hnone
  unfold OutputQueue.takeControl
  split
  · exact h
  next packet control hctl =>
    exact { take_control h hctl with }

theorem complete (h : QueueInv ⟨q, some packet⟩) :
    ∃ q', q.complete packet = some q' ∧ QueueInv ⟨q', none⟩ := by
  unfold OutputQueue.complete
  cases hp : isTerminalOutput packet with
  | true =>
    obtain ⟨h₁, h₂, h₃, h₄, h₅, h₆⟩ := (iff_terminal hp).mp h
    rw [h₁, h₂, Nat.add_comm _ (packetCost packet), Nat.add_comm _ 1, checkedSub_add, checkedSub_add]
    exact ⟨_, rfl, rfl, rfl, h₃, h₄, h₅, h₆⟩
  | false =>
    obtain ⟨h₁, h₂, h₃, h₄, h₅, h₆⟩ := (iff_control hp).mp h
    rw [h₃, h₄, Nat.add_comm _ (packetCost packet), Nat.add_comm _ 1, checkedSub_add, checkedSub_add]
    exact ⟨_, rfl, h₁, h₂, rfl, rfl, h₅, h₆⟩

theorem restoreFront (h : QueueInv ⟨q, some packet⟩) :
    QueueInv ⟨q.restoreFront packet, none⟩ := by
  unfold OutputQueue.restoreFront
  cases hp : isTerminalOutput packet with
  | true =>
    have h := (iff_terminal hp).mp h
    refine { h with terminalBytes := ?_, terminalLane := forall_mem_cons.mpr ⟨hp, h.terminalLane⟩ }
    show q.terminalBytes = laneCost (packet :: q.terminal) + 0
    rw [h.terminalBytes, laneCost_cons, Nat.add_comm]
    rfl
  | false =>
    have h := (iff_control hp).mp h
    refine { h with controlBytes := ?_, controlLane := forall_mem_cons.mpr ⟨hp, h.controlLane⟩ }
    show q.controlBytes = laneCost (packet :: q.control) + 0
    rw [h.controlBytes, laneCost_cons, Nat.add_comm]
    rfl

theorem push (h : QueueInv s) (packet : Packet) :
    ∃ result q', s.queue.push packet = some (result, q') ∧ QueueInv { s with queue := q' } := by
  unfold OutputQueue.push
  cases hp : isTerminalOutput packet with
  | true =>
    obtain ⟨result, q', hpush, hacc, -, -⟩ := LaneAccounts.pushTerminal h hp
    exact ⟨result, q', hpush, hacc⟩
  | false => exact ⟨_, _, rfl, (LaneAccounts.pushControl h hp).1⟩

/-- **No operation panics, and the counters stay exact.** -/
theorem step (h : QueueInv s) {e : QueueEvent} (hallow : s.Allowed e) :
    ∃ s', s.apply e = some s' ∧ QueueInv s' := by
  cases e with
  | push packet =>
    obtain ⟨result, q', hpush, hinv⟩ := h.push packet
    exact ⟨_, by rw [QueueRun.apply, hpush]; rfl, hinv⟩
  | take =>
    obtain ⟨packet, q', htake, hinv⟩ := h.take hallow
    exact ⟨_, by rw [QueueRun.apply, htake]; rfl, hinv⟩
  | takeControl => exact ⟨_, rfl, h.takeControl hallow⟩
  | complete =>
    obtain ⟨q, inFlight⟩ := s
    cases inFlight with
    | none => exact ⟨_, rfl, h⟩
    | some packet =>
      obtain ⟨q', hcomp, hinv⟩ := complete h
      exact ⟨_, by simp only [QueueRun.apply, hcomp]; rfl, hinv⟩
  | restoreFront =>
    obtain ⟨q, inFlight⟩ := s
    cases inFlight with
    | none => exact ⟨_, rfl, h⟩
    | some packet => exact ⟨_, rfl, restoreFront h⟩
  | flushTerminalOnInterrupt =>
    obtain ⟨dropped, q', hfilt, hacc⟩ := LaneAccounts.filterTerminal h flushThreshold
    exact ⟨{ s with queue := q' }, by rw [QueueRun.apply, OutputQueue.flushTerminalOnInterrupt, hfilt]; rfl, hacc⟩
  | discardDrainedTerminal drained =>
    obtain ⟨dropped, q', hdis, hacc⟩ := LaneAccounts.discardDrainedTerminal h hallow
    exact ⟨{ s with queue := q' }, by rw [QueueRun.apply, hdis]; rfl, hacc⟩
  | setLimit limit => exact ⟨_, rfl, h.1, h.2, h.3, h.4, h.5, h.6⟩

end QueueInv

/-- **The counters of an output queue.**  In every run they are the cost and the number of the queued
packets of each lane and the one in flight, and no operation panics.  A push that is `Ok` leaves its
lane within the limit and the packet bound, unless it is terminal output that was skipped whole: then
nothing but the flag that skips has changed. -/
theorem output_queue_accounts {mode : FlowControlMode} {limit : Nat} {s : QueueRun}
    (hrun : Relation.ReflTransGen QueueStep ⟨.new mode limit, none⟩ s) :
    (s.queue.terminalBytes = laneCost (s.queue.terminal ++ s.inLane true) ∧
      s.queue.terminalPackets = (s.queue.terminal ++ s.inLane true).length ∧
      s.queue.controlBytes = laneCost (s.queue.control ++ s.inLane false) ∧
      s.queue.controlPackets = (s.queue.control ++ s.inLane false).length) ∧
    (∀ e, s.Allowed e → (s.apply e).isSome) ∧
    ∀ packet q', s.queue.push packet = some (.ok (), q') →
      if isTerminalOutput packet then
        if (s.queue.skipThroughNewline packet).1 = none then
          ∃ skips, q' = { s.queue with skipUntilNewline := skips }
        else q'.terminalBytes ≤ s.queue.limit ∧ q'.terminalPackets ≤ maxPacketsPerLane
      else q'.controlBytes ≤ s.queue.limit ∧ q'.controlPackets ≤ maxPacketsPerLane := by
  have h : QueueInv s := by
    refine reach_invariant (P := QueueInv) hrun (.new mode limit) fun a b ha hstep => ?_
    obtain ⟨e, _, hallowed, happly⟩ := hstep
    obtain ⟨s', hs', hinv⟩ := ha.step hallowed
    rwa [Option.some.inj (happly.symm.trans hs')]
  refine ⟨⟨?_, ?_, ?_, ?_⟩, fun e hallowed => ?_, fun packet q' hpush => ?_⟩
  · rw [laneCost_append, h.terminalBytes]
  · rw [length_append, h.terminalPackets]
  · rw [laneCost_append, h.controlBytes]
  · rw [length_append, h.controlPackets]
  · obtain ⟨s', hs', -⟩ := h.step hallowed
    rw [hs']
    rfl
  · unfold OutputQueue.push at hpush
    cases hp : isTerminalOutput packet with
    | true =>
      obtain ⟨result, q₁, hresult, -, hskipped, hbound⟩ := LaneAccounts.pushTerminal h hp
      rw [hp, if_pos rfl, hresult] at hpush
      cases hpush
      rw [if_pos rfl]
      split
      next hnone =>
        obtain ⟨skips, hskip⟩ := (s.queue.skipThroughNewline_spec packet).1
        exact ⟨skips, (hskipped hnone).trans hskip⟩
      next hsome =>
        exact hbound hsome rfl
    | false =>
      have hbound := (LaneAccounts.pushControl h hp).2
      rw [hp, if_neg Bool.false_ne_true] at hpush
      rw [if_neg Bool.false_ne_true]
      have heq := Option.some.inj hpush
      rw [heq] at hbound
      exact hbound rfl

/-! ### Runs made of events -/

/-- The state after allowed events, or `start` when one panics or is not allowed. -/
def queueAfter (start : QueueRun) (es : List QueueEvent) : QueueRun :=
  (execEvents (fun s e => if s.Allowed e then s.apply e else none) start es).getD start

theorem queue_reach {start : QueueRun} (es : List QueueEvent)
    (h : (execEvents (fun s e => if s.Allowed e then s.apply e else none) start es).isSome) :
    Relation.ReflTransGen QueueStep start (queueAfter start es) :=
  reach_guarded .step es h

/-- Terminal output as the server sends it. -/
def terminalPacket (text : String) : Packet := .new terminalBuffer (encodeTerminalBuffer (ascii text) false)

/-- Two pushes that merge, a control packet, a packet restored and taken again, a completion, drained output with a
control line, and a lower limit. -/
def queueEvents : List QueueEvent :=
  [.push (terminalPacket "a"), .push (terminalPacket "b"), .push (.new 7 [1]), .take,
    .push (terminalPacket "c\n"), .restoreFront, .take, .complete, .take,
    .discardDrainedTerminal [terminalPacket "%session-changed\n%output x"], .setLimit 8]

theorem output_queue_accounts_run :
    let s := queueAfter ⟨.new .backpressure 1000, none⟩ queueEvents
    (s.queue.terminalBytes, s.queue.terminalPackets, s.queue.controlBytes, s.queue.controlPackets) =
        (35, 2, 0, 0) ∧
      s.queue.terminalBytes = laneCost (s.queue.terminal ++ s.inLane true) :=
  ⟨by decide +kernel, (output_queue_accounts (queue_reach queueEvents (by decide +kernel))).1.1⟩

/-- Drained output leaves a control line queued and a pane line cut short; then the limit falls. -/
def overLimitEvents : List QueueEvent :=
  [.discardDrainedTerminal [terminalPacket "%session-changed\n%output x"], .setLimit 8]

/-- **A push is `Ok` over the limit**: all of it belongs to the line that was cut short, so nothing is
queued, but the lane holds more than the limit. -/
theorem swallowed_push_over_limit :
    ∃ s, Relation.ReflTransGen QueueStep ⟨.new .backpressure 1000, none⟩ s ∧
      ∃ q', s.queue.push (terminalPacket "y") = some (.ok (), q') ∧ q'.limit < q'.terminalBytes :=
  ⟨_, queue_reach overLimitEvents (by decide +kernel),
    (queueAfter ⟨.new .backpressure 1000, none⟩ overLimitEvents).queue, by decide +kernel,
    by decide +kernel⟩

/-! ### Truncation -/

/-- The cost of the packet with the last `k` bytes for its buffer. -/
def suffixCost (packet : Packet) (bytes : Bytes) (isStderr : Option Bool) (k : Nat) : Nat :=
  packetCost (packet.withBuffer (bytes.drop (bytes.length - k)) isStderr)

section
variable {packet : Packet} {bytes : Bytes} {isStderr : Option Bool} {limit k k' : Nat}

theorem suffixCost_eq : suffixCost packet bytes isStderr k =
    (encode ⟨some (bytes.drop (bytes.length - k)), isStderr⟩).length + (headerLen + frameBytes) := by
  rw [suffixCost, packetCost, Packet.wireLen, Nat.add_right_comm, Nat.add_comm]
  rfl

theorem suffixCost_mono (hle : k ≤ k') : suffixCost packet bytes isStderr k ≤ suffixCost packet bytes isStderr k' := by
  have hlen : (bytes.drop (bytes.length - k)).length ≤ (bytes.drop (bytes.length - k')).length := by
    rw [length_drop, length_drop]
    omega
  have hvarint : (Protobuf.encodeVarint _).length ≤ (Protobuf.encodeVarint _).length :=
    Protobuf.length_encodeVarintFrom_mono 10 hlen
  simp only [suffixCost_eq, encode_some, length_cons, length_append]
  omega

/-- **The bisection**: `low` bytes fit, more than `high` do not, and the two meet. -/
theorem fittingSuffix_spec {low high : Nat} (hle : low ≤ high) (hlen : high ≤ bytes.length)
    (hlow : suffixCost packet bytes isStderr low ≤ limit)
    (hhigh : ∀ k, high < k → k ≤ bytes.length → limit < suffixCost packet bytes isStderr k) :
    suffixCost packet bytes isStderr (fittingSuffix bytes isStderr limit low high) ≤ limit ∧
      ∀ k, fittingSuffix bytes isStderr limit low high < k → k ≤ bytes.length →
        limit < suffixCost packet bytes isStderr k := by
  fun_induction fittingSuffix bytes isStderr limit low high with
  | case1 low high hlt middle encoded hfits ih => exact ih (by omega) hlen (suffixCost_eq.trans_le hfits) hhigh
  | case2 low high hlt middle encoded hover ih =>
    refine ih (by omega) (by omega) hlow fun k hk _ => ?_
    have hmiddle : limit < suffixCost packet bytes isStderr middle := by
      rw [suffixCost_eq]
      exact Nat.lt_of_not_le hover
    exact hmiddle.trans_le (suffixCost_mono (by omega))
  | case3 low high hge =>
    obtain rfl : low = high := by omega
    exact ⟨hlow, hhigh⟩

/-- **Truncation keeps the longest suffix that fits**, with the header and the flag of the packet, whenever the limit
has room for the packet without its buffer. -/
theorem truncate_longest_suffix (hdec : decode packet.payload = some ⟨some bytes, isStderr⟩)
    (hroom : packetCost (packet.withBuffer [] isStderr) ≤ limit) :
    ∃ suffix result, truncateTerminal packet limit = .ok result ∧ result.header = packet.header ∧
      decode result.payload = some ⟨some suffix, isStderr⟩ ∧ suffix <:+ bytes ∧ packetCost result ≤ limit ∧
      ∀ longer, longer <:+ bytes → packetCost (packet.withBuffer longer isStderr) ≤ limit →
        longer.length ≤ suffix.length := by
  have hzero : suffixCost packet bytes isStderr 0 ≤ limit := by
    rwa [suffixCost, Nat.sub_zero, drop_length]
  obtain ⟨hfits, hover⟩ := fittingSuffix_spec (Nat.zero_le bytes.length) le_rfl hzero fun k hk hk' =>
    absurd hk' (Nat.not_le.mpr hk)
  have hsuffix := drop_suffix (bytes.length - fittingSuffix bytes isStderr limit 0 bytes.length) bytes
  refine ⟨_, packet.withBuffer _ isStderr, by rw [truncateTerminal, hdec], rfl, decode_encode ?_, hsuffix, hfits,
    fun longer hlonger hcost => ?_⟩
  · rintro _ ⟨⟩
    exact hsuffix.length_le.trans_lt (encodable_of_decode hdec bytes rfl)
  · have hle := hlonger.length_le
    rw [suffix_iff_eq_drop.mp hlonger] at hcost
    refine Nat.le_of_not_lt fun hlt => absurd hcost (Nat.not_le.mpr (hover longer.length ?_ hle))
    rw [length_drop] at hlt
    omega

/-- Of three bytes at least two are kept. -/
theorem truncate_longest_suffix_two :
    ∃ suffix result, truncateTerminal (terminalPacket "abc") 10 = .ok result ∧
      decode result.payload = some ⟨some suffix, none⟩ ∧ suffix <:+ ascii "abc" ∧ (ascii "bc").length ≤ suffix.length := by
  obtain ⟨suffix, result, htruncate, -, hbuffer, hsuffix, -, hlongest⟩ :=
    @truncate_longest_suffix (terminalPacket "abc") (ascii "abc") none 10 (by decide) (by decide)
  exact ⟨suffix, result, htruncate, hbuffer, hsuffix, hlongest _ (by decide) (by decide)⟩

end

end EternalTerminal
