import EternalTerminal.Server.RecoverHold
import EternalTerminal.Server.SessionFlow

/-!
# Server — whose packet an error is about

`send_packet_owned` answers for one packet: `BeforeReplay` when the caller still has it, `ReplayOwned` when the replay
writer has it.  On the way it may find another packet's frame partly written, and finishes that one first.  The bridge
keeps what was refused at the front of its queue and sends it again (`send_or_hold`, `flush_outbound`).

Other threads go on between the locks of a call, so what is found behind each lock is an argument.  A call is recorded
as its touches: what it found behind a lock, and what it left there.

Main result: `misattributed_frame`.
-/

namespace EternalTerminal
open Machine List

/-- `None` where the lock is poisoned. -/
abbrev Locked (α : Type) : Type := Option α

/-- Why a packet was not sent. -/
inductive SendError where
  | session (error : SessionError)
  | connection (error : WriteError)
  deriving DecidableEq

/-- A failed send, by who has the packet. -/
inductive SessionWriteError where
  | beforeReplay (error : SendError)
  | replayOwned (error : SendError)
  deriving DecidableEq

def SessionWriteError.ofWrite : WritePacketError → SessionWriteError
  | .beforeReplay error => .beforeReplay (.connection error)
  | .replayOwned error => .replayOwned (.connection error)

def SessionWriteError.unavailable : SessionWriteError := .beforeReplay (.session .unavailable)

/-- What a call finds behind a lock, and what it leaves there. -/
inductive Touch where
  | output (before after : WriterState)
  | hold (before after : RecoverHold)
  | connection (before after : SendingConnection)

/-- The packet is there now. -/
def Touch.Takes (S : Sodium) (packet : HeldPacket) : Touch → Prop
  | .output before after => before.enqueueOwned (.new packet.1 packet.2) = some (.ok (), after)
  | .hold before after => after = ⟨before.hold ++ [packet], before.bytes + packet.2.length⟩
  | .connection before after => WriterAppended S packet.1 packet.2 before.writer after.writer

/-- The packet is not. -/
def Touch.Leaves (packet : HeldPacket) : Touch → Prop
  | .output before after => ∃ refused, before.enqueueOwned (.new packet.1 packet.2) = some (.error refused, after)
  | .hold before after => after = before
  | .connection before after => OnlyConnected before.writer after.writer

theorem Touch.Leaves.not_takes {S : Sodium} {packet : HeldPacket} {touch : Touch} (h : touch.Leaves packet) :
    ¬ touch.Takes S packet := by
  intro htakes
  cases touch with
  | output before after =>
    obtain ⟨refused, href⟩ := h
    rw [Touch.Takes, href] at htakes
    cases htakes
  | hold before after =>
    have hlengths := congrArg (fun s => s.hold.length) (h.symm.trans htakes)
    simp at hlengths
  | connection before after =>
    have hsequence := htakes.sequence
    have hkept : after.writer = { before.writer with connected := after.writer.connected } := h
    have hsame : after.writer.sequence = before.writer.sequence := by rw [hkept]
    omega

/-- One touch takes the packet, the others leave it. -/
def PlacedOnce (S : Sodium) (packet : HeldPacket) (touches : List Touch) : Prop :=
  ∃ earlier touch later, touches = earlier ++ touch :: later ∧ touch.Takes S packet ∧
    ∀ other ∈ earlier ++ later, other.Leaves packet

/-- The same, and it is the replay writer that has it. -/
def AppendedOnce (S : Sodium) (packet : HeldPacket) (touches : List Touch) : Prop :=
  ∃ earlier before after later, touches = earlier ++ .connection before after :: later ∧
    WriterAppended S packet.1 packet.2 before.writer after.writer ∧ ∀ other ∈ earlier ++ later, other.Leaves packet

def Untouched (packet : HeldPacket) (touches : List Touch) : Prop := ∀ touch ∈ touches, touch.Leaves packet

section Places
variable {S : Sodium} {packet : HeldPacket} {touches more : List Touch}

theorem untouched_nil (packet : HeldPacket) : Untouched packet [] := fun _ htouch => (nomatch htouch)

theorem AppendedOnce.placedOnce (h : AppendedOnce S packet touches) : PlacedOnce S packet touches := by
  obtain ⟨earlier, before, after, later, htouches, happ, hothers⟩ := h
  exact ⟨earlier, _, later, htouches, happ, hothers⟩

theorem Untouched.not_placedOnce (h : Untouched packet touches) : ¬ PlacedOnce S packet touches := by
  rintro ⟨earlier, touch, later, rfl, htakes, -⟩
  exact (h touch (by simp)).not_takes htakes

theorem Untouched.append (h : Untouched packet touches) (hmore : Untouched packet more) :
    Untouched packet (touches ++ more) := by
  exact forall_mem_append.mpr ⟨h, hmore⟩

theorem untouched_singleton {touch : Touch} (h : touch.Leaves packet) : Untouched packet [touch] := by
  intro other hoth
  rw [mem_singleton.mp hoth]
  exact h

theorem PlacedOnce.append (h : PlacedOnce S packet touches) (hmore : Untouched packet more) :
    PlacedOnce S packet (touches ++ more) := by
  obtain ⟨earlier, touch, later, rfl, htakes, hothers⟩ := h
  refine ⟨earlier, touch, later ++ more, by simp, htakes, ?_⟩
  rw [← append_assoc]
  exact Untouched.append hothers hmore

theorem placedOnce_last {touch : Touch} (h : Untouched packet touches) (htakes : touch.Takes S packet) :
    PlacedOnce S packet (touches ++ [touch]) :=
  ⟨touches, touch, [], rfl, htakes, by rw [append_nil]; exact h⟩

theorem appendedOnce_last {before after : SendingConnection} (h : Untouched packet touches)
    (happ : WriterAppended S packet.1 packet.2 before.writer after.writer) :
    AppendedOnce S packet (touches ++ [.connection before after]) :=
  ⟨touches, before, after, [], rfl, happ, by rw [append_nil]; exact h⟩

end Places

/-! ### One call -/

/-- The answer of a call, and its touches. -/
structure SendOutcome where
  result : Except SessionWriteError Unit
  touches : List Touch

/-- What a call of `queue_if_recovering` finds. -/
structure HoldLook where
  recovering : Bool
  stillRecovering : Bool
  connection : SendingConnection
  hold : RecoverHold

/-- What a call of `send_packet_owned` finds, in the order of its steps. -/
structure SendWorld where
  /-- `output_flow`, where there is one. -/
  output : Option (Locked WriterState)
  flowControl : Bool
  first : Locked HoldLook
  writeSerial : Locked Unit
  connection : Locked SendingConnection
  recovering : Bool
  second : Locked HoldLook
  relocked : Locked SendingConnection
  /-- The rounds in which another packet's frame is finished. -/
  finish : List FinishRound
  finishFailed : Locked SendingConnection
  finished : Locked SendingConnection
  write : WriteAnswers

/-- What `queue_if_recovering` answers. -/
def HoldLook.queue (look : HoldLook) (packet : HeldPacket) : Except Unit Bool × Touch :=
  let queued := look.hold.queueIfRecovering ⟨look.recovering, look.stillRecovering, look.connection, packet⟩
  (queued.1, .hold look.hold queued.2)

/-- A queueing step: the call ends with it, unless no recovery runs. -/
def queueStep (look : Locked HoldLook) (packet : HeldPacket) (touches : List Touch) :
    SendOutcome ⊕ List Touch :=
  match look with
  | none => .inl ⟨.error .unavailable, touches⟩
  | some look =>
    match look.queue packet with
    | (.error _, touch) => .inl ⟨.error .unavailable, touches ++ [touch]⟩
    | (.ok true, touch) => .inl ⟨.ok (), touches ++ [touch]⟩
    | (.ok false, touch) => .inr (touches ++ [touch])

/-- The queue takes the packet or refuses it; `none` where a counter of the queue underflows. -/
def stage (state : Locked WriterState) (packet : HeldPacket) : Option SendOutcome :=
  match state with
  | none => some ⟨.error .unavailable, []⟩
  | some before =>
    match before.enqueueOwned (.new packet.1 packet.2) with
    | none => none
    | some (.ok _, after) => some ⟨.ok (), [.output before after]⟩
    | some (.error (_, error), after) => some ⟨.error (.beforeReplay (.session error)), [.output before after]⟩

namespace SendWorld

/-- The queue that the packet belongs to, where there is one. -/
def staging (w : SendWorld) (packet : HeldPacket) : Option (Locked WriterState) :=
  w.output.filter fun _ => w.flowControl || packet.1 == terminalBuffer

/-- Up to the point where the call has the connection. -/
def reach (w : SendWorld) (packet : HeldPacket) : SendOutcome ⊕ List Touch × SendingConnection :=
  match queueStep w.first packet [] with
  | .inl outcome => .inl outcome
  | .inr touches =>
    match w.writeSerial, w.connection with
    | none, _ | _, none => .inl ⟨.error .unavailable, touches⟩
    | some _, some connection =>
      if !w.recovering then .inr (touches, connection)
      else match queueStep w.second packet touches with
        | .inl outcome => .inl outcome
        | .inr touches =>
          match w.relocked with
          | none => .inl ⟨.error .unavailable, touches⟩
          | some connection => .inr (touches, connection)

variable (S : Sodium) (platform : Platform)

/-- The write itself. -/
def writeOn (w : SendWorld) (packet : HeldPacket) (touches : List Touch) (c : SendingConnection) : SendOutcome :=
  let written := writePacketOwned S platform w.write c packet.1 packet.2
  ⟨written.1.mapError .ofWrite, touches ++ [.connection c written.2]⟩

/-- With the connection: another packet's frame first, then this packet. -/
def finishThenWrite (w : SendWorld) (packet : HeldPacket) (touches : List Touch) (c : SendingConnection) :
    SendOutcome :=
  match c.pendingLive with
  | none => w.writeOn S platform packet touches c
  | some pending =>
    let touches := touches ++ [.connection c { c with pendingLive := none }]
    match (pending.finish w.finish).1 with
    | .error error =>
      let lost := w.finishFailed.toList.map fun c => Touch.connection c c.disconnect
      ⟨.error (.ofWrite error), touches ++ lost⟩
    | .ok _ =>
      match w.finished with
      | none => ⟨.error .unavailable, touches⟩
      | some c => w.writeOn S platform packet touches c

end SendWorld

section Calls
variable (S : Sodium) (platform : Platform)

def sendPacketOwned (w : SendWorld) (packet : HeldPacket) : Option SendOutcome :=
  match w.staging packet with
  | some state => stage state packet
  | none =>
    match w.reach packet with
    | .inl outcome => some outcome
    | .inr (touches, c) => some (w.finishThenWrite S platform packet touches c)

/-- The frame that the call finds on its way can be finished. -/
def SendWorld.FrameFinishes (w : SendWorld) (packet : HeldPacket) : Prop :=
  w.staging packet = none → ∀ touches c, w.reach packet = .inr (touches, c) →
    ∀ pending ∈ c.pendingLive, (pending.finish w.finish).1 = .ok ()

/-- The answer says where the packet is. -/
def SendOutcome.Verdict (packet : HeldPacket) (o : SendOutcome) : Prop :=
  match o.result with
  | .error (.beforeReplay _) => Untouched packet o.touches
  | .error (.replayOwned _) => AppendedOnce S packet o.touches
  | .ok _ => PlacedOnce S packet o.touches

end Calls

section Verdicts
variable {S : Sodium} {platform : Platform} {packet : HeldPacket} {touches : List Touch}

theorem verdict_stage {state : Locked WriterState} {o : SendOutcome} (h : stage state packet = some o) :
    o.Verdict S packet := by
  unfold stage at h
  split at h
  · cases h
    exact untouched_nil packet
  split at h
  · cases h
  next hstaged =>
    cases h
    exact placedOnce_last (untouched_nil packet) hstaged
  next hstaged =>
    cases h
    exact untouched_singleton ⟨_, hstaged⟩

/-- The hold has the packet, or is as it was. -/
theorem HoldLook.queue_cases (look : HoldLook) (packet : HeldPacket) :
    ((look.queue packet).1 = .ok true ∧ (look.queue packet).2.Takes S packet) ∨
      ((look.queue packet).1 ≠ .ok true ∧ (look.queue packet).2.Leaves packet) := by
  rcases look.hold.queueIfRecovering_cases ⟨look.recovering, look.stillRecovering, look.connection, packet⟩ with
    ⟨hres, hst⟩ | ⟨heq, -⟩
  · exact .inr ⟨hres, hst⟩
  · exact .inl ⟨congrArg Prod.fst heq, congrArg Prod.snd heq⟩

/-- A queueing step ends the call with the right answer, or touches nothing. -/
theorem queueStep_cases (look : Locked HoldLook) (h : Untouched packet touches) :
    Sum.elim (SendOutcome.Verdict S packet) (Untouched packet) (queueStep look packet touches) := by
  cases look with
  | none => exact h
  | some look =>
    have hcas := look.queue_cases (S := S) packet
    unfold queueStep
    dsimp only
    generalize look.queue packet = queued at hcas ⊢
    obtain ⟨result, touch⟩ := queued
    match result, hcas with
    | .error _, .inr ⟨_, hleaves⟩ => exact h.append (untouched_singleton hleaves)
    | .ok false, .inr ⟨_, hleaves⟩ => exact h.append (untouched_singleton hleaves)
    | .ok true, .inl ⟨_, htakes⟩ => exact placedOnce_last h htakes
    | .ok true, .inr ⟨hres, _⟩ => exact absurd rfl hres
    | .error _, .inl ⟨hres, _⟩ => cases hres
    | .ok false, .inl ⟨hres, _⟩ => cases hres

/-- Up to the connection nothing can go wrong. -/
theorem reach_cases (w : SendWorld) (packet : HeldPacket) :
    Sum.elim (SendOutcome.Verdict S packet) (fun found => Untouched packet found.1) (w.reach packet) := by
  have hfst := queueStep_cases (S := S) w.first (untouched_nil packet)
  unfold SendWorld.reach
  generalize queueStep w.first packet [] = first at hfst ⊢
  cases first with
  | inl outcome => exact hfst
  | inr touches =>
    dsimp only
    split
    · exact hfst
    · exact hfst
    split
    · exact hfst
    have hsnd := queueStep_cases (S := S) w.second hfst
    generalize queueStep w.second packet touches = second at hsnd ⊢
    cases second with
    | inl outcome => exact hsnd
    | inr touches =>
      dsimp only
      split
      · exact hsnd
      · exact hsnd

theorem verdict_writeOn (w : SendWorld) (h : Untouched packet touches) (c : SendingConnection) :
    (w.writeOn S platform packet touches c).Verdict S packet := by
  have hown : c.Verdict S packet.1 packet.2 _ :=
    c.ownership_writePacketOwnedUntil platform packet.1 packet.2 none w.write.probe w.write.now w.write.rounds
  unfold SendWorld.writeOn writePacketOwned
  dsimp only
  generalize c.writePacketOwnedUntil S platform packet.1 packet.2 none w.write.probe w.write.now w.write.rounds =
    written at hown ⊢
  obtain ⟨result, after⟩ := written
  match result, hown with
  | .error (.beforeReplay _), hkept => exact h.append (untouched_singleton hkept)
  | .error (.replayOwned _), happ => exact appendedOnce_last h happ
  | .ok _, happ => exact (appendedOnce_last h happ).placedOnce

/-- To lose the transport is to take no packet. -/
theorem leaves_disconnect (c : SendingConnection) : (Touch.connection c c.disconnect).Leaves packet :=
  OnlyConnected.invalidate c.writer

theorem untouched_lost (c : Locked SendingConnection) :
    Untouched packet (c.toList.map fun c => Touch.connection c c.disconnect) := by
  intro touch htouch
  obtain ⟨c, -, rfl⟩ := mem_map.mp htouch
  exact leaves_disconnect c

/-- The other frame is all that an answer can be about wrongly. -/
theorem verdict_finishThenWrite (w : SendWorld) (h : Untouched packet touches) (c : SendingConnection) :
    (w.finishThenWrite S platform packet touches c).Verdict S packet ↔
      ∀ pending ∈ c.pendingLive, (pending.finish w.finish).1 = .ok () := by
  unfold SendWorld.finishThenWrite
  split
  next hpend =>
    refine iff_of_true (verdict_writeOn w h c) fun pending hmem => ?_
    rw [hpend] at hmem
    cases hmem
  rename_i pending hpend
  have htak : Untouched packet (touches ++ [.connection c { c with pendingLive := none }]) :=
    h.append (untouched_singleton (.refl c.writer))
  rw [hpend]
  dsimp only
  split
  next error hfin =>
    have hlost := htak.append (untouched_lost w.finishFailed)
    refine iff_of_false (fun hver => ?_) fun hall => ?_
    · -- `finish` only fails as `ReplayOwned`, which is the other packet's state
      have hown : error = .replayOwned .io := by
        rcases pending.finish_owned w.finish with hok | herr
        · rw [hfin] at hok
          cases hok
        · exact Except.error.inj (hfin.symm.trans herr)
      rw [hown] at hver
      exact hlost.not_placedOnce (AppendedOnce.placedOnce hver)
    · have hok := hall pending rfl
      rw [hfin] at hok
      cases hok
  next hfin =>
    refine iff_of_true ?_ fun other hmem => ?_
    · split
      · exact htak
      · exact verdict_writeOn w htak _
    · cases hmem
      exact hfin

/-- **The answer is about this packet** exactly when the frame found on the way could be finished. -/
theorem verdict_iff_frameFinishes {w : SendWorld} {o : SendOutcome} (h : sendPacketOwned S platform w packet = some o) :
    o.Verdict S packet ↔ w.FrameFinishes packet := by
  unfold sendPacketOwned at h
  unfold SendWorld.FrameFinishes
  split at h
  next state hstaging =>
    refine iff_of_true (verdict_stage h) fun hnone => ?_
    rw [hstaging] at hnone
    cases hnone
  rename_i hstaging
  have hreach := reach_cases (S := S) w packet
  split at h
  next outcome heq =>
    cases h
    rw [heq] at hreach
    refine iff_of_true hreach fun _ touches c hfound => ?_
    rw [heq] at hfound
    cases hfound
  next touches c heq =>
    cases h
    rw [heq] at hreach
    rw [verdict_finishThenWrite w hreach c]
    refine ⟨fun hall _ touches' c' hfound => ?_, fun hall => hall hstaging touches c heq⟩
    rw [heq] at hfound
    obtain ⟨-, rfl⟩ := Prod.mk.inj (Sum.inr.inj hfound)
    exact hall

end Verdicts

/-! ### The bridge sends again -/

/-- What a send of the bridge finds. -/
structure BridgeWorld where
  output : Option (Locked WriterState)
  send : SendWorld
  /-- The connection that `mark_client_disconnected` finds, unless it is no longer the observed one. -/
  lost : Locked (Option SendingConnection)

def SendError.isBackpressure : SendError → Bool
  | .session .backpressure | .connection .backpressure => true
  | _ => false

/-- `client_transport_error`: whether the error is soft. -/
def BridgeWorld.clientTransportError (w : BridgeWorld) (error : SendError) : Except SendError Bool × List Touch :=
  match error with
  | .connection .io =>
    match w.lost with
    | none => (.error (.session .unavailable), [])
    | some c => (.ok true, c.toList.map fun c => .connection c c.disconnect)
  | _ => (.ok false, [])

/-- A soft error leaves `kept` with the bridge, any other ends it. -/
def BridgeWorld.soften (w : BridgeWorld) (error : SendError) (kept : Option HeldPacket) (touches : List Touch) :
    Except SendError (Option HeldPacket) × List Touch :=
  match w.clientTransportError error with
  | (.ok true, lost) => (.ok kept, touches ++ lost)
  | (.ok false, lost) => (.error error, touches ++ lost)
  | (.error error, lost) => (.error error, touches ++ lost)

/-- A send of the bridge, as it is logged. -/
structure Attempt where
  world : BridgeWorld
  packet : HeldPacket
  touches : List Touch

/-- The bridge's queue, with what was given to it and its sends. -/
structure Bridge where
  pending : List HeldPacket
  given : List HeldPacket
  log : List Attempt

def forwardBacklogCapacity : Nat := 513

section Bridge
variable (S : Sodium)

/-- The Unix bridge, which writes the queue itself after it has put the packet there. -/
def sendBridgePacketOwned (w : BridgeWorld) (packet : HeldPacket) : Option SendOutcome :=
  match w.output with
  | some state => stage state packet
  | none => sendPacketOwned S .unix w.send packet

/-- The packet is given back when it is to be sent again. -/
def sendOrHold (w : BridgeWorld) (packet : HeldPacket) : Option (Except SendError (Option HeldPacket) × List Touch) :=
  (sendBridgePacketOwned S w packet).map fun o =>
    match o.result with
    | .ok _ => (.ok none, o.touches)
    | .error (.beforeReplay error) =>
      if error.isBackpressure then (.ok (some packet), o.touches) else w.soften error (some packet) o.touches
    | .error (.replayOwned error) => w.soften error none o.touches

namespace Bridge

/-- A packet leaves the front of the queue, unless the send gives it back. -/
def sendFront (b : Bridge) (w : BridgeWorld) (packet : HeldPacket) (rest : List HeldPacket) :
    Option (Bool × Bridge) :=
  match sendOrHold S w packet with
  | some (.ok kept, touches) =>
    some (kept.isSome, { b with pending := kept.toList ++ rest, log := b.log ++ [⟨w, packet, touches⟩] })
  | _ => none

/-- `none` when an error ends the bridge. -/
def flushOutbound : List BridgeWorld → Bridge → Option Bridge
  | worlds, b =>
    match worlds, b.pending with
    | _, [] => some b
    | [], _ :: _ => none
    | w :: worlds, packet :: rest =>
      match b.sendFront S w packet rest with
      | none => none
      | some (true, b) => some b
      | some (false, b) => flushOutbound worlds b

def enqueueOutbound (b : Bridge) (w : BridgeWorld) (packet : HeldPacket) : Option Bridge :=
  match b.pending.getLast? with
  | none => (Bridge.sendFront S { b with given := b.given ++ [packet] } w packet []).map Prod.snd
  | some last =>
    if packet.1 = keepAlive ∧ b.pending.length = forwardBacklogCapacity ∧ last.1 = keepAlive then
      -- the newest acknowledgement supersedes the one that waits
      if packet.2.isEmpty then some b
      else some { b with pending := b.pending.dropLast ++ [packet], given := b.given.dropLast ++ [packet] }
    else some { b with pending := b.pending ++ [packet], given := b.given ++ [packet] }

end Bridge

end Bridge

/-- What a bridge does. -/
inductive BridgeEvent where
  | enqueue (world : BridgeWorld) (packet : HeldPacket)
  | flush (worlds : List BridgeWorld)

def Bridge.exec (S : Sodium) (b : Bridge) : BridgeEvent → Option Bridge
  | .enqueue world packet => b.enqueueOutbound S world packet
  | .flush worlds => Bridge.flushOutbound S worlds b

def BridgeStep (S : Sodium) (b b' : Bridge) : Prop := ∃ event, b.exec S event = some b'

def Bridge.new : Bridge := ⟨[], [], []⟩

/-- No send of the bridge failed at another packet's frame. -/
def Attempt.FrameFinishes (a : Attempt) : Prop := a.world.output = none → a.world.send.FrameFinishes a.packet

/-- The packets that were placed, each by one of the sends; every other send left its packet. -/
inductive PlacedInOrder (S : Sodium) : List HeldPacket → List Attempt → Prop where
  | nil : PlacedInOrder S [] []
  | kept {sent : List HeldPacket} {log : List Attempt} {a : Attempt} :
      PlacedInOrder S sent log → Untouched a.packet a.touches → PlacedInOrder S sent (log ++ [a])
  | placed {sent : List HeldPacket} {log : List Attempt} {a : Attempt} :
      PlacedInOrder S sent log → PlacedOnce S a.packet a.touches → PlacedInOrder S (sent ++ [a.packet]) (log ++ [a])

/-- What was given to the bridge is placed, or still with it, in order. -/
def Bridge.Settled (S : Sodium) (b : Bridge) : Prop :=
  (∀ a ∈ b.log, a.FrameFinishes) → ∃ sent, b.given = sent ++ b.pending ∧ PlacedInOrder S sent b.log

section Runs
variable {S : Sodium}
variable {packet : HeldPacket} {w : BridgeWorld} {b b' : Bridge}

theorem untouched_clientTransportError (w : BridgeWorld) (error : SendError) (packet : HeldPacket) :
    Untouched packet (w.clientTransportError error).2 := by
  unfold BridgeWorld.clientTransportError
  split
  · split
    · exact untouched_nil packet
    · exact untouched_lost _
  · exact untouched_nil packet

theorem soften_ok {error : SendError} {kept kept' : Option HeldPacket} {touches touches' : List Touch}
    (h : w.soften error kept touches = (.ok kept', touches')) :
    kept' = kept ∧ touches' = touches ++ (w.clientTransportError error).2 := by
  unfold BridgeWorld.soften at h
  split at h
  next lost heq =>
    obtain ⟨hkept, rfl⟩ := Prod.mk.inj h
    rw [heq]
    exact ⟨(Except.ok.inj hkept).symm, rfl⟩
  · cases h
  · cases h

/-- A send of the bridge takes the packet and has placed it, or gives it back untouched. -/
theorem sendOrHold_cases {kept : Option HeldPacket} {touches : List Touch}
    (h : sendOrHold S w packet = some (.ok kept, touches)) :
    (kept = none ∧ ((w.output = none → w.send.FrameFinishes packet) → PlacedOnce S packet touches)) ∨
      (kept = some packet ∧ ((w.output = none → w.send.FrameFinishes packet) → Untouched packet touches)) := by
  obtain ⟨o, hsend, h⟩ := Option.map_eq_some_iff.mp h
  have hver : (w.output = none → w.send.FrameFinishes packet) → o.Verdict S packet := by
    intro hfinishes
    unfold sendBridgePacketOwned at hsend
    split at hsend
    · exact verdict_stage hsend
    next hnone =>
      exact (verdict_iff_frameFinishes hsend).mpr (hfinishes hnone)
  obtain ⟨result, sendTouches⟩ := o
  match result, hver, h with
  | .ok _, hplaced, h =>
    obtain ⟨hkept, rfl⟩ := Prod.mk.inj h
    exact .inl ⟨(Except.ok.inj hkept).symm, hplaced⟩
  | .error (.beforeReplay error), hun, h =>
    dsimp only at h
    split at h
    · obtain ⟨hkept, rfl⟩ := Prod.mk.inj h
      exact .inr ⟨(Except.ok.inj hkept).symm, hun⟩
    · obtain ⟨rfl, rfl⟩ := soften_ok h
      exact .inr ⟨rfl, fun hf => Untouched.append (hun hf) (untouched_clientTransportError w error packet)⟩
  | .error (.replayOwned error), happ, h =>
    obtain ⟨rfl, rfl⟩ := soften_ok h
    exact .inl ⟨rfl, fun hf =>
      (AppendedOnce.placedOnce (happ hf)).append (untouched_clientTransportError w error packet)⟩

/-- **One send from the front**, of a packet that the bridge was given. -/
theorem bridge_settled_sendFront {rest : List HeldPacket} {kept : Bool} (hset : (∀ a ∈ b.log, a.FrameFinishes) →
      ∃ sent, b.given = sent ++ packet :: rest ∧ PlacedInOrder S sent b.log)
    (h : b.sendFront S w packet rest = some (kept, b')) : b'.Settled S := by
  intro hlog
  unfold Bridge.sendFront at h
  split at h
  next given touches hsend =>
    cases h
    dsimp only at hlog ⊢
    obtain ⟨sent, hgiven, hplaced⟩ := hset fun a ha => hlog a (mem_append_left _ ha)
    have hfinishes := hlog ⟨w, packet, touches⟩ (by simp)
    rcases sendOrHold_cases hsend with ⟨rfl, honce⟩ | ⟨rfl, hun⟩
    · refine ⟨sent ++ [packet], ?_, .placed (a := ⟨w, packet, touches⟩) hplaced (honce hfinishes)⟩
      rw [hgiven]
      simp
    · refine ⟨sent, ?_, .kept hplaced (hun hfinishes)⟩
      rw [hgiven]
      simp
  · cases h

/-- What every send from the front keeps, a flush keeps. -/
theorem Bridge.flushOutbound_induction {P : Bridge → Prop} {worlds : List BridgeWorld}
    (hsend : ∀ {b b' : Bridge} {w : BridgeWorld} {packet : HeldPacket} {rest : List HeldPacket} {kept : Bool},
      P b → b.pending = packet :: rest → b.sendFront S w packet rest = some (kept, b') → P b')
    (hb : P b) (h : Bridge.flushOutbound S worlds b = some b') : P b' := by
  induction worlds generalizing b with
  | nil =>
    unfold Bridge.flushOutbound at h
    split at h
    · cases h
      exact hb
    · cases h
    next heq _ =>
      cases heq
  | cons w worlds ih =>
    unfold Bridge.flushOutbound at h
    split at h
    · cases h
      exact hb
    next heq _ =>
      cases heq
    rename_i w' worlds' packet rest heq hpend
    obtain ⟨rfl, rfl⟩ := List.cons.inj heq
    split at h
    · cases h
    next hfront =>
      cases h
      exact hsend hb hpend hfront
    next hfront =>
      exact ih (hsend hb hpend hfront) h

theorem bridge_settled_flushOutbound {worlds : List BridgeWorld} (hset : b.Settled S)
    (h : Bridge.flushOutbound S worlds b = some b') : b'.Settled S :=
  Bridge.flushOutbound_induction (fun hb hpend hfront => bridge_settled_sendFront (hpend ▸ hb) hfront) hset h

theorem bridge_settled_enqueueOutbound (hset : b.Settled S)
    (h : b.enqueueOutbound S w packet = some b') : b'.Settled S := by
  unfold Bridge.enqueueOutbound at h
  split at h
  next hemp =>
    obtain ⟨⟨kept, b₁⟩, hsend, rfl⟩ := Option.map_eq_some_iff.mp h
    refine bridge_settled_sendFront (fun hlog => ?_) hsend
    obtain ⟨sent, hgiven, hplaced⟩ := hset hlog
    rw [List.getLast?_eq_none_iff.mp hemp, append_nil] at hgiven
    exact ⟨sent, by rw [hgiven], hplaced⟩
  next last hlast =>
    split at h
    · split at h
      · cases h
        exact hset
      · cases h
        intro hlog
        obtain ⟨sent, hgiven, hplaced⟩ := hset hlog
        have hne : b.pending ≠ [] := ne_nil_of_mem (List.mem_of_getLast? hlast)
        refine ⟨sent, ?_, hplaced⟩
        dsimp only
        rw [hgiven, dropLast_append_of_ne_nil hne, append_assoc]
    · cases h
      intro hlog
      obtain ⟨sent, hgiven, hplaced⟩ := hset hlog
      refine ⟨sent, ?_, hplaced⟩
      dsimp only
      rw [hgiven, append_assoc]

theorem bridge_settled_step (hset : b.Settled S) (h : BridgeStep S b b') : b'.Settled S := by
  obtain ⟨event, h⟩ := h
  cases event with
  | enqueue world packet => exact bridge_settled_enqueueOutbound hset h
  | flush worlds => exact bridge_settled_flushOutbound hset h

/-- What the bridge sends again and again is placed once. -/
theorem bridge_settled_run (h : Relation.ReflTransGen (BridgeStep S) Bridge.new b) : b.Settled S := by
  refine reach_invariant h (fun _ => ⟨[], rfl, .nil⟩) fun b b' hset hstep => ?_
  exact bridge_settled_step hset hstep

/-- **Whose packet an error is about.**  The answer of `send_packet_owned` says where this packet is exactly when the
frame that it found on its way could be finished; a bridge whose sends all found that places every packet once. -/
theorem owned_answer_iff (S : Sodium) (platform : Platform) :
    (∀ w packet o, sendPacketOwned S platform w packet = some o → (o.Verdict S packet ↔ w.FrameFinishes packet)) ∧
      ∀ b, Relation.ReflTransGen (BridgeStep S) Bridge.new b → (∀ a ∈ b.log, a.FrameFinishes) →
        ∃ sent, b.given = sent ++ b.pending ∧ PlacedInOrder S sent b.log :=
  ⟨fun _ _ _ h => verdict_iff_frameFinishes h, fun _ h => bridge_settled_run h⟩

end Runs

section Calls

/-- A frame of which one byte is on the wire. -/
def partlyWritten : SendingConnection := { idleConnection with pendingLive := some ⟨⟨0, false⟩, [1, 2, 3], 1, 1000, none⟩ }

/-- A send that finds the frame, and the answer its next bytes get. -/
def frameOnTheWay (answer : SendAnswer) : SendWorld where
  output := none
  flowControl := false
  first := some ⟨false, false, idleConnection, .new⟩
  writeSerial := some ()
  connection := some partlyWritten
  recovering := false
  second := none
  relocked := none
  finish := [⟨⟨0, answer⟩, false⟩]
  finishFailed := some idleConnection
  finished := some idleConnection
  write := sendAnswers (.taken 1000)

def bridgeOnTheWay (answer : SendAnswer) : BridgeWorld := ⟨none, frameOnTheWay answer, some none⟩

theorem owned_answer_iff_finished_frame :
    ∃ b, Bridge.new.exec Aead.plainSodium (.enqueue (bridgeOnTheWay (.taken 2)) (keepAlive, [7])) = some b ∧
      b.pending = [] ∧ ∃ sent, b.given = sent ++ b.pending ∧ PlacedInOrder Aead.plainSodium sent b.log := by
  refine ⟨_, rfl, rfl, ?_⟩
  have hstep : BridgeStep Aead.plainSodium .new _ :=
    ⟨.enqueue (bridgeOnTheWay (.taken 2)) (keepAlive, [7]), rfl⟩
  refine (owned_answer_iff Aead.plainSodium .unix).2 _ (.single hstep) fun a ha => ?_
  obtain rfl := mem_singleton.mp ha
  rintro - - touches c hreach pending hpending
  obtain ⟨-, rfl⟩ := Prod.mk.inj (Sum.inr.inj hreach)
  cases hpending
  rfl

/-- **The other frame fails**, and the error says that the replay has this packet: no touch put it there, and the bridge
drops it. -/
theorem misattributed_frame :
    ∃ o, sendPacketOwned Aead.plainSodium .unix (frameOnTheWay .failed) (keepAlive, [7]) = some o ∧
      o.result = .error (.replayOwned (.connection .io)) ∧ Untouched (keepAlive, [7]) o.touches ∧
      ¬ AppendedOnce Aead.plainSodium (keepAlive, [7]) o.touches ∧
      ∃ b, Bridge.new.exec Aead.plainSodium (.enqueue (bridgeOnTheWay .failed) (keepAlive, [7])) = some b ∧
        b.given = [(keepAlive, [7])] ∧ b.pending = [] := by
  have hheld : Untouched (keepAlive, [7]) [.hold .new .new] := untouched_singleton (Eq.refl RecoverHold.new)
  have htaken : Untouched (keepAlive, [7]) [.connection partlyWritten idleConnection] :=
    untouched_singleton (OnlyConnected.refl idleConnection.writer)
  have huntouched := (hheld.append htaken).append (untouched_lost (some idleConnection))
  exact ⟨_, rfl, rfl, huntouched, fun happended => huntouched.not_placedOnce happended.placedOnce, _, rfl, rfl, rfl⟩

end Calls

end EternalTerminal
