import EternalTerminal.Lib.Interference
import EternalTerminal.Net.Catchup

/-!
# Net — the outbound lanes of the forwarding worker

The worker hands packets to the session on two lanes, ordinary and priority.  While it runs in a thread of its
own a lane is a bounded channel: what does not fit the ordinary one is spilled, and with the spill full the
worker blocks, until there is room, the session asks to take it over or it is cancelled.

The thread's calls are programs over the channels (`Lib/Interference`): the session takes packets between any
two operations, and a blocked send has no answer yet.  All that was ever put on the channels is their *account*,
which the session cannot change.

Main result: `does_emission`.
-/

namespace EternalTerminal
open Program List

/-! ### The channels -/

/-- Errors of a worker. -/
inductive ForwardError where
  | unsupported
  | io (kind : ErrorKind) (message : String)
  | protocol (message : String)
  | unavailable
  deriving DecidableEq

def channelCapacity : Nat := 256
def channelSpillLimit : Nat := channelCapacity

/-- What a lane carries. -/
abbrev Outbound := Except ForwardError Packet

def outboundLen : Outbound → Nat
  | .ok packet => packet.payload.length
  | .error _ => 0

/-- A bounded channel, with what the session has taken from it or, after a takeover, from the engine's
queue for the same lane. -/
structure OutboundChannel where
  capacity : Nat
  queue : List Outbound
  received : List Outbound

namespace OutboundChannel

/-- All that was ever put on the lane's channel. -/
def sent (c : OutboundChannel) : List Outbound := c.received ++ c.queue

def push (c : OutboundChannel) (packet : Outbound) : OutboundChannel := { c with queue := c.queue ++ [packet] }

/-- The session takes the first packet. -/
def pop (c : OutboundChannel) : Option OutboundChannel :=
  match c.queue with
  | [] => none
  | packet :: rest => some { c with queue := rest, received := c.received ++ [packet] }

def hasRoom (c : OutboundChannel) : Bool := c.queue.length < c.capacity

@[simp] theorem sent_push (c : OutboundChannel) (packet : Outbound) : (c.push packet).sent = c.sent ++ [packet] := by
  simp only [sent, push, append_assoc]

theorem sent_pop {c d : OutboundChannel} (h : c.pop = some d) : d.sent = c.sent := by
  unfold pop at h
  split at h
  · cases h
  next packet rest hq =>
    cases h
    simp only [sent, hq, append_assoc, singleton_append]

end OutboundChannel

/-- What the worker's thread shares with the session. -/
structure LaneChannels where
  outbound : OutboundChannel
  priority : OutboundChannel
  /-- A request to take the worker over is waiting. -/
  handoverRequest : Bool
  /-- The forwarder exists, and with it the receivers of the lanes and the sender of the request. -/
  forwarder : Bool
  /-- The sender of the cancellation channel is gone. -/
  cancel : Bool
  shutdown : Bool
  spillPending : Bool
  wakeSignalled : Bool

namespace LaneChannels

def lane (ch : LaneChannels) (priority : Bool) : OutboundChannel := if priority then ch.priority else ch.outbound

def push (ch : LaneChannels) (priority : Bool) (packet : Outbound) : LaneChannels :=
  if priority then { ch with priority := ch.priority.push packet } else { ch with outbound := ch.outbound.push packet }

/-- A send does not block: there is room, and someone to receive. -/
def accepts (ch : LaneChannels) (priority : Bool) : Bool := ch.forwarder && (ch.lane priority).hasRoom

end LaneChannels

/-- What a send that does not block answers. -/
inductive TrySend where
  | sent
  | full
  | disconnected

/-- Which operation of a `select` was ready; the request is among them unless it is `never()`. -/
inductive Selected : (requests : Bool) → Type where
  | sent {requests : Bool} : Selected requests
  | disconnected {requests : Bool} : Selected requests
  | cancelled {requests : Bool} : Selected requests
  | handover : Selected true
  | handoverGone : Selected true

/-- One operation of the thread on what it shares. -/
inductive LaneOp where
  | trySend (packet : Outbound)
  | select (priority : Bool) (packet : Outbound) (requests : Bool)
  | outboundLen
  | storeSpillPending (pending : Bool)
  | swapWakeSignalled
  | tryRecvHandover
  | swapShutdown
  | publish (error : ForwardError)

def LaneOp.Res : LaneOp → Type
  | trySend _ => TrySend
  | select _ _ requests => Selected requests
  | outboundLen => Nat
  | storeSpillPending _ => Unit
  | swapWakeSignalled => Bool
  | tryRecvHandover => Bool
  | swapShutdown => Bool
  | publish _ => Unit

namespace LaneChannels

/-- What a request that is selected can say: it is there, or its sender is gone. -/
def requestAnswers (ch : LaneChannels) : (requests : Bool) → List (Selected requests × LaneChannels)
  | false => []
  | true =>
    if ch.handoverRequest then [(.handover, { ch with handoverRequest := false })]
    else if ch.forwarder then [] else [(.handoverGone, ch)]

def trySendAnswers (ch : LaneChannels) (packet : Outbound) : List (TrySend × LaneChannels) :=
  if !ch.forwarder then [(.disconnected, ch)]
  else if ch.outbound.hasRoom then [(.sent, ch.push false packet)] else [(.full, ch)]

/-- Any operation that is ready; none as long as the `select` blocks. -/
def selectAnswers (ch : LaneChannels) (priority : Bool) (packet : Outbound) (requests : Bool) :
    List (Selected requests × LaneChannels) :=
  (if ch.accepts priority then [(.sent, ch.push priority packet)] else []) ++
    (if ch.forwarder then [] else [(.disconnected, ch)]) ++
    (if ch.cancel then [(.cancelled, ch)] else []) ++ ch.requestAnswers requests

/-- The error goes behind the packets, or nowhere when nobody wants it. -/
def publishAnswers (ch : LaneChannels) (error : ForwardError) : List (Unit × LaneChannels) :=
  (if ch.accepts false then [((), ch.push false (.error error))] else []) ++
    (if ch.cancel || !ch.forwarder then [((), ch)] else [])

def answers : (op : LaneOp) → LaneChannels → List (op.Res × LaneChannels)
  | .trySend packet, ch => ch.trySendAnswers packet
  | .select priority packet requests, ch => ch.selectAnswers priority packet requests
  | .outboundLen, ch => [(ch.outbound.queue.length, ch)]
  | .storeSpillPending pending, ch => [((), { ch with spillPending := pending })]
  | .swapWakeSignalled, ch => [(ch.wakeSignalled, { ch with wakeSignalled := true })]
  | .tryRecvHandover, ch => [(ch.handoverRequest, { ch with handoverRequest := false })]
  | .swapShutdown, ch => [(ch.shutdown, { ch with shutdown := true })]
  | .publish error, ch => ch.publishAnswers error

end LaneChannels

/-! ### The worker -/

/-- What the lanes use of a `Worker`. -/
structure LaneWorker where
  engine : Bool
  enginePriority : List Outbound
  engineOutbound : List Outbound
  engineOutboundBytes : Nat
  /-- `false` once it is `never()`. -/
  handoverRequest : Bool
  handoverPending : Bool
  outboundSpill : List Outbound
  deferOutboundWake : Bool
  outboundWakeNeeded : Bool

/-- A call of the thread. -/
abbrev LaneProgram (α : Type) := Program LaneOp LaneOp.Res α

/-- A program that may fail, with the worker as it leaves it. -/
abbrev LaneCall (α : Type) := LaneProgram (Except ForwardError α × LaneWorker)

/-- The `?` of the source. -/
def LaneCall.andThen {α β : Type} (p : LaneCall α) (f : α → LaneWorker → LaneCall β) : LaneCall β :=
  p.bind fun
    | (.ok a, w) => f a w
    | (.error e, w) => .ret (.error e, w)

namespace LaneWorker

def new : LaneWorker where
  engine := false
  enginePriority := []
  engineOutbound := []
  engineOutboundBytes := 0
  handoverRequest := true
  handoverPending := false
  outboundSpill := []
  deferOutboundWake := false
  outboundWakeNeeded := false

/-- The loop of `send_spilled`, over what is left of the spill. -/
def sendSpilledFrom (w : LaneWorker) : List Outbound → LaneCall Unit
  | [] => .ret (.ok (), { w with outboundSpill := [] })
  | packet :: rest =>
    .call (.trySend packet) fun
      | .sent => w.sendSpilledFrom rest
      | .full => .ret (.ok (), { w with outboundSpill := packet :: rest })
      | .disconnected => .ret (.error .unavailable, { w with outboundSpill := rest })

def sendSpilled (w : LaneWorker) : LaneCall Unit := w.sendSpilledFrom w.outboundSpill

def flushOutboundSpill (w : LaneWorker) : LaneCall Unit :=
  if w.engine then .ret (.ok (), w)
  else
    w.sendSpilled.andThen fun _ w =>
      LaneCall.andThen
        (if w.outboundSpill.isEmpty then .ret (.ok (), w)
        -- a session that takes a packet from now on wakes the worker; room made before is used here
        else .call (.storeSpillPending true) fun _ => w.sendSpilled)
        fun _ w =>
          if w.outboundSpill.isEmpty then .call (.storeSpillPending false) fun _ => .ret (.ok (), w)
          else .call .swapWakeSignalled fun _ => .ret (.ok (), w)

/-- A round of `send_blocking` that selects without the request. -/
def sendBlockingAlone (w : LaneWorker) (priority : Bool) (packet : Outbound) : LaneCall (Option Outbound) :=
  .call (.select priority packet false) fun
    | .sent => .ret (.ok none, w)
    | .disconnected => .ret (.error .unavailable, w)
    | .cancelled => .ret (.error .unavailable, w)

/-- Waits until the packet fits its channel; gives it back when the session asks for the worker. -/
def sendBlocking (w : LaneWorker) (priority : Bool) (packet : Outbound) : LaneCall (Option Outbound) :=
  if w.handoverRequest then
    .call (.select priority packet true) fun
      | .sent => .ret (.ok none, w)
      | .disconnected => .ret (.error .unavailable, w)
      | .cancelled => .ret (.error .unavailable, w)
      | .handover => .ret (.ok (some packet), { w with handoverPending := true })
      -- the loop's next round is its last: the request is `never()` from here on
      | .handoverGone => { w with handoverRequest := false }.sendBlockingAlone priority packet
  else w.sendBlockingAlone priority packet

def flushOutboundWake (w : LaneWorker) : LaneProgram LaneWorker :=
  if w.engine then .ret { w with outboundWakeNeeded := false }
  else .call .swapWakeSignalled fun _ => .ret { w with outboundWakeNeeded := false }

def noteOutboundEmitted (w : LaneWorker) : LaneProgram LaneWorker :=
  if w.engine then .ret w
  else if !w.deferOutboundWake then w.flushOutboundWake
  else
    .call .outboundLen fun (queued : Nat) =>
      if 32 ≤ queued then w.flushOutboundWake else .ret { w with outboundWakeNeeded := true }

def enqueueOutboundOrdered (w : LaneWorker) (packet : Outbound) : LaneCall Unit :=
  if w.engine then
    .ret (.ok (), { w with
      engineOutboundBytes := w.engineOutboundBytes + outboundLen packet
      engineOutbound := w.engineOutbound ++ [packet] })
  else
    w.flushOutboundSpill.andThen fun _ w =>
      match w.outboundSpill with
      | [] =>
        .call (.trySend packet) fun
          | .sent => .ret (.ok (), w)
          | .full => .ret (.ok (), { w with outboundSpill := [packet] })
          | .disconnected => .ret (.error .unavailable, w)
      | oldest :: spill =>
        if w.handoverPending || (oldest :: spill).length < channelSpillLimit then
          .ret (.ok (), { w with outboundSpill := oldest :: spill ++ [packet] })
        else
          ({ w with outboundSpill := spill }.sendBlocking false oldest).andThen fun
            | none, w => .ret (.ok (), { w with outboundSpill := w.outboundSpill ++ [packet] })
            | some oldest, w => .ret (.ok (), { w with outboundSpill := oldest :: w.outboundSpill ++ [packet] })

/-- The tail of an `emit`: the session is told. -/
def telling (w : LaneWorker) (note : LaneWorker → LaneProgram LaneWorker) : LaneCall Unit :=
  (note w).bind fun w => .ret (.ok (), w)

def emit (w : LaneWorker) (header : UInt8) (payload : Bytes) : LaneCall Unit :=
  (w.enqueueOutboundOrdered (.ok (.new header payload))).andThen fun _ w => w.telling noteOutboundEmitted

def emitRaw (w : LaneWorker) (header : UInt8) (payload : Bytes) : LaneCall Unit :=
  (w.enqueueOutboundOrdered (.ok (.new header payload))).andThen fun _ w =>
    w.telling (if payload.length ≤ 4096 then flushOutboundWake else noteOutboundEmitted)

def emitPriority (w : LaneWorker) (header : UInt8) (payload : Bytes) : LaneCall Unit :=
  if w.engine || w.handoverPending then
    .ret (.ok (), { w with enginePriority := w.enginePriority ++ [.ok (.new header payload)] })
  else
    (w.sendBlocking true (.ok (.new header payload))).andThen fun
      | some packet, w => .ret (.ok (), { w with enginePriority := w.enginePriority ++ [packet] })
      | none, w => w.telling noteOutboundEmitted

/-- The poll loop asks whether the session wants the worker. -/
def handoverRequested (w : LaneWorker) : LaneCall Unit :=
  if w.handoverPending || !w.handoverRequest then .ret (.ok (), w)
  else .call .tryRecvHandover fun (requested : Bool) => .ret (.ok (), { w with handoverPending := requested })

end LaneWorker

/-- The end of a worker that failed: the error follows what is in the channel. -/
def publishFailure (error : ForwardError) : LaneProgram Unit :=
  .call .swapShutdown fun (wasShutdown : Bool) =>
    if wasShutdown then .ret () else .call (.publish error) fun _ => .ret ()

/-- What a caller emits, and on which lane. -/
inductive Emission where
  | ordinary (header : UInt8) (payload : Bytes)
  | raw (header : UInt8) (payload : Bytes)
  | priority (header : UInt8) (payload : Bytes)

namespace Emission

def onPriority : Emission → List Outbound
  | .priority header payload => [.ok (.new header payload)]
  | _ => []

def onOrdinary : Emission → List Outbound
  | .ordinary header payload | .raw header payload => [.ok (.new header payload)]
  | .priority _ _ => []

def run (w : LaneWorker) : Emission → LaneCall Unit
  | .ordinary header payload => w.emit header payload
  | .raw header payload => w.emitRaw header payload
  | .priority header payload => w.emitPriority header payload

end Emission

/-! ### What a call does -/

/-- All that was ever put on the two channels. -/
structure LaneAccount where
  outbound : List Outbound
  priority : List Outbound

def LaneAccount.push (a : LaneAccount) (priority : Bool) (packet : Outbound) : LaneAccount :=
  if priority then { a with priority := a.priority ++ [packet] } else { a with outbound := a.outbound ++ [packet] }

def LaneChannels.account (ch : LaneChannels) : LaneAccount := ⟨ch.outbound.sent, ch.priority.sent⟩

@[simp] theorem LaneChannels.account_push (ch : LaneChannels) (priority : Bool) (packet : Outbound) :
    (ch.push priority packet).account = ch.account.push priority packet := by
  cases priority <;> simp [account, push, LaneAccount.push]

/-- What was selected: the send, with the packet on its channel, or something that leaves the channels. -/
theorem LaneChannels.mem_selectAnswers {ch : LaneChannels} {priority requests : Bool} {packet : Outbound}
    {r : Selected requests × LaneChannels} (hr : r ∈ ch.selectAnswers priority packet requests) :
    r = (.sent, ch.push priority packet) ∨ r.1 ≠ .sent ∧ r.2.account = ch.account := by
  simp only [selectAnswers, mem_append] at hr
  rcases hr with ((hr | hr) | hr) | hr
  · split at hr
    · exact .inl (mem_singleton.mp hr)
    · cases hr
  · split at hr
    · cases hr
    · exact .inr (mem_singleton.mp hr ▸ ⟨nofun, rfl⟩)
  · split at hr
    · exact .inr (mem_singleton.mp hr ▸ ⟨nofun, rfl⟩)
    · cases hr
  · cases requests with
    | false => cases hr
    | true =>
      simp only [requestAnswers] at hr
      split at hr
      · exact .inr (mem_singleton.mp hr ▸ ⟨nofun, rfl⟩)
      · split at hr
        · cases hr
        · exact .inr (mem_singleton.mp hr ▸ ⟨nofun, rfl⟩)

/-- The session takes packets from the channels and puts none there. -/
def laneWorld : World LaneOp LaneOp.Res LaneChannels where
  answers op ch := ch.answers op
  rely ch ch' := ch'.account = ch.account
  refl _ := rfl
  trans h h' := h'.trans h

/-- What is on the channels came there in the order of emission, and nothing is missing before it. -/
def LaneAccount.Ordered (a : LaneAccount) (emitted emittedPriority : List Outbound) : Prop :=
  a.outbound <+: emitted ∧ a.priority <+: emittedPriority

/-- From channels with the account `a`, the call ends with `post` unless it fails, and never breaks the order. -/
def LaneCall.Does {α : Type} (p : LaneCall α) (emitted emittedPriority : List Outbound)
    (post : α → LaneWorker → LaneAccount → Prop) (a : LaneAccount) : Prop :=
  ∀ ch : LaneChannels, ch.account = a →
    p.Meets laneWorld (fun ch => ch.account.Ordered emitted emittedPriority)
      (fun r ch => ∀ x, r.1 = .ok x → post x r.2 ch.account) ch

namespace LaneCall
variable {α β : Type} {emitted emittedPriority : List Outbound} {post : α → LaneWorker → LaneAccount → Prop}
  {a : LaneAccount}

variable {op : LaneOp} {next : op.Res → LaneCall α} {w : LaneWorker} {packet : Outbound} {p : LaneCall α}
  {ch : LaneChannels}

section
variable (ha : a.Ordered emitted emittedPriority)
include ha

theorem does_ok {x : α} (h : post x w a) : Does (.ret (.ok x, w)) emitted emittedPriority post a := by
  rintro ch rfl
  refine ⟨ha, fun y hy => ?_⟩
  cases hy
  exact h

theorem does_error {error : ForwardError} : Does (.ret (.error error, w)) emitted emittedPriority post a := by
  rintro ch rfl
  exact ⟨ha, fun y hy => by cases hy⟩

/-- A call, by what its answers leave on the channels. -/
theorem does_call
    (h : ∀ ch : LaneChannels, ch.account = a → ∀ r ∈ ch.answers op,
      Does (next r.1) emitted emittedPriority post r.2.account) :
    Does (.call op next) emitted emittedPriority post a := by
  rintro ch rfl
  exact ⟨ha, fun t ht r hr => h t ht r hr r.2 rfl⟩

end

/-- An operation that sends nothing. -/
theorem does_quiet (hqt : ∀ ch : LaneChannels, ∃ r, ch.answers op = [r] ∧ r.2.account = ch.account)
    (ha : a.Ordered emitted emittedPriority) (h : ∀ r, Does (next r) emitted emittedPriority post a) :
    Does (.call op next) emitted emittedPriority post a := by
  refine does_call ha fun ch hch r hr => ?_
  obtain ⟨answer, hans, hacc⟩ := hqt ch
  rw [hans, mem_singleton] at hr
  rw [hr, hacc, hch]
  exact h answer.1

theorem does_trySend {next : TrySend → LaneCall α} (ha : a.Ordered emitted emittedPriority)
    (hsent : Does (next .sent) emitted emittedPriority post (a.push false packet))
    (hfull : Does (next .full) emitted emittedPriority post a)
    (hgone : Does (next .disconnected) emitted emittedPriority post a) :
    Does (.call (.trySend packet) next) emitted emittedPriority post a := by
  refine does_call ha fun ch hch r hr => ?_
  subst hch
  have hr : r ∈ ch.trySendAnswers packet := hr
  unfold LaneChannels.trySendAnswers at hr
  split at hr
  · rw [mem_singleton.mp hr]
    exact hgone
  split at hr
  · rw [mem_singleton.mp hr, LaneChannels.account_push]
    exact hsent
  · rw [mem_singleton.mp hr]
    exact hfull

theorem does_select {priority requests : Bool} {next : Selected requests → LaneCall α}
    (ha : a.Ordered emitted emittedPriority)
    (hsent : Does (next .sent) emitted emittedPriority post (a.push priority packet))
    (hoth : ∀ r, r ≠ .sent → Does (next r) emitted emittedPriority post a) :
    Does (.call (.select priority packet requests) next) emitted emittedPriority post a := by
  refine does_call ha fun ch hch r hr => ?_
  subst hch
  rcases LaneChannels.mem_selectAnswers hr with rfl | ⟨hne, hacc⟩
  · rw [LaneChannels.account_push]
    exact hsent
  · rw [hacc]
    exact hoth r.1 hne

theorem Does.andThen {f : α → LaneWorker → LaneCall β} {post' : β → LaneWorker → LaneAccount → Prop}
    (h : Does p emitted emittedPriority post a)
    (hf : ∀ x w a, a.Ordered emitted emittedPriority → post x w a → Does (f x w) emitted emittedPriority post' a) :
    Does (p.andThen f) emitted emittedPriority post' a := by
  intro ch hch
  refine Meets.bind ((h ch hch).mono (fun _ h => h) fun r ch hordered hpost => ?_)
  obtain ⟨_ | x, w⟩ := r
  · exact does_error hordered ch rfl
  · exact hf x w ch.account hordered (hpost x rfl) ch rfl

theorem Does.answer {r : op.Res × LaneChannels}
    (h : Does (.call op next) emitted emittedPriority post ch.account) (hr : r ∈ ch.answers op) :
    Does (next r.1) emitted emittedPriority post r.2.account := by
  -- the session moves: only the account matters
  intro ch' hch
  refine ((h ch rfl).answer hr).rely hch (fun h => ?_) fun r h => ?_
  · rw [hch]
    exact h
  · rw [hch]
    exact h

theorem Does.ordered (h : Does p emitted emittedPriority post ch.account) :
    ch.account.Ordered emitted emittedPriority :=
  (h ch rfl).holds

end LaneCall

/-- What the worker holds follows on what it has sent: together they are what was emitted. -/
structure LaneWorker.Keeps (w : LaneWorker) (emitted emittedPriority : List Outbound) (a : LaneAccount) : Prop where
  outbound : a.outbound ++ w.outboundSpill = emitted
  priority : a.priority ++ w.enginePriority = emittedPriority
  engine : w.engine = false
  engineOutbound : w.engineOutbound = []
  -- once the session has asked for the worker, the priority channel takes nothing any more
  enginePriority : w.handoverPending = false → w.enginePriority = []

namespace LaneWorker
open LaneCall
variable {w : LaneWorker} {emitted emittedPriority : List Outbound} {a : LaneAccount}

theorem Keeps.ordered (h : w.Keeps emitted emittedPriority a) : a.Ordered emitted emittedPriority :=
  ⟨⟨_, h.outbound⟩, ⟨_, h.priority⟩⟩

/-- The call keeps the account of the worker, with all that was emitted. -/
abbrev Settles (p : LaneCall α) (emitted emittedPriority : List Outbound) (a : LaneAccount) : Prop :=
  Does p emitted emittedPriority (fun _ w a => w.Keeps emitted emittedPriority a) a

/-- The loop over the spill moves packets from its front to the end of the channel. -/
theorem does_sendSpilledFrom (spill : List Outbound)
    (h : { w with outboundSpill := spill }.Keeps emitted emittedPriority a) :
    Settles (w.sendSpilledFrom spill) emitted emittedPriority a := by
  induction spill generalizing a with
  | nil => exact does_ok h.ordered h
  | cons packet rest ih =>
    refine does_trySend h.ordered (ih ?_) (does_ok h.ordered h) (does_error h.ordered)
    have hout : (a.push false packet).outbound ++ rest = emitted := by
      rw [← h.outbound]
      exact append_assoc _ _ _
    exact { h with outbound := hout }

theorem does_sendSpilled (h : w.Keeps emitted emittedPriority a) :
    Settles w.sendSpilled emitted emittedPriority a :=
  does_sendSpilledFrom w.outboundSpill h

theorem does_flushOutboundSpill (h : w.Keeps emitted emittedPriority a) :
    Settles w.flushOutboundSpill emitted emittedPriority a := by
  unfold flushOutboundSpill
  rw [if_neg (by simp [h.engine])]
  refine (does_sendSpilled h).andThen fun _ w a _ h => ?_
  have hretry : Settles (if w.outboundSpill.isEmpty then .ret (.ok (), w)
      else .call (.storeSpillPending true) fun _ => w.sendSpilled) emitted emittedPriority a := by
    split
    · exact does_ok h.ordered h
    · exact does_quiet (fun _ => ⟨_, rfl, rfl⟩) h.ordered fun _ => does_sendSpilled h
  refine hretry.andThen fun _ w a _ h => ?_
  split
  · exact does_quiet (fun _ => ⟨_, rfl, rfl⟩) h.ordered fun _ => does_ok h.ordered h
  · exact does_quiet (fun _ => ⟨_, rfl, rfl⟩) h.ordered fun _ => does_ok h.ordered h

/-- A blocking send ends with the packet on its channel, or gives it back to a worker that is asked for. -/
theorem does_sendBlocking (priority : Bool) (packet : Outbound) (post : Option Outbound → LaneWorker → LaneAccount → Prop)
    (ha : a.Ordered emitted emittedPriority) (hpush : (a.push priority packet).Ordered emitted emittedPriority)
    (hsent : ∀ requests, post none { w with handoverRequest := requests } (a.push priority packet))
    (hback : post (some packet) { w with handoverPending := true } a) :
    Does (w.sendBlocking priority packet) emitted emittedPriority post a := by
  have halone : ∀ requests, Does ({ w with handoverRequest := requests }.sendBlockingAlone priority packet) emitted
      emittedPriority post a := by
    intro requests
    refine does_select ha (does_ok hpush (hsent requests)) fun r hr => ?_
    cases r with
    | sent => exact absurd rfl hr
    | disconnected => exact does_error ha
    | cancelled => exact does_error ha
  unfold sendBlocking
  split
  · refine does_select ha (does_ok hpush (hsent w.handoverRequest)) fun r hr => ?_
    cases r with
    | sent => exact absurd rfl hr
    | disconnected => exact does_error ha
    | cancelled => exact does_error ha
    | handover => exact does_ok ha hback
    | handoverGone => exact halone false
  · exact halone w.handoverRequest

theorem does_telling_flush (h : w.Keeps emitted emittedPriority a) :
    Settles (w.telling flushOutboundWake) emitted emittedPriority a := by
  have hkp : { w with outboundWakeNeeded := false }.Keeps emitted emittedPriority a :=
    { h with }
  unfold telling flushOutboundWake
  rw [if_neg (by simp [h.engine])]
  exact does_quiet (fun _ => ⟨_, rfl, rfl⟩) h.ordered fun _ => does_ok h.ordered hkp

theorem does_telling_note (h : w.Keeps emitted emittedPriority a) :
    Settles (w.telling noteOutboundEmitted) emitted emittedPriority a := by
  have hkp : { w with outboundWakeNeeded := true }.Keeps emitted emittedPriority a :=
    { h with }
  unfold telling noteOutboundEmitted
  rw [if_neg (by simp [h.engine])]
  split
  · exact does_telling_flush h
  refine does_quiet (fun _ => ⟨_, rfl, rfl⟩) h.ordered fun (queued : Nat) => ?_
  show Does ((if 32 ≤ queued then w.flushOutboundWake else .ret { w with outboundWakeNeeded := true }).bind _) _ _ _ _
  split
  · exact does_telling_flush h
  · exact does_ok h.ordered hkp

/-- **An ordinary packet goes behind all that was emitted before it.** -/
theorem does_enqueueOutboundOrdered (packet : Outbound) (h : w.Keeps emitted emittedPriority a) :
    Settles (w.enqueueOutboundOrdered packet) (emitted ++ [packet]) emittedPriority a := by
  unfold enqueueOutboundOrdered
  rw [if_neg (by simp [h.engine])]
  have hflush : Does w.flushOutboundSpill (emitted ++ [packet]) emittedPriority
      (fun _ w a => w.Keeps emitted emittedPriority a) a := fun ch hch =>
    (does_flushOutboundSpill h ch hch).mono (fun _ h => ⟨h.1.trans (prefix_append _ _), h.2⟩) fun _ _ _ h => h
  refine hflush.andThen fun _ w a ha h => ?_
  have hpkt : a.outbound ++ (w.outboundSpill ++ [packet]) = emitted ++ [packet] := by
    rw [← append_assoc, h.outbound]
  split
  next hspill =>
    rw [hspill, nil_append] at hpkt
    have hsent : w.Keeps (emitted ++ [packet]) emittedPriority (a.push false packet) := by
      refine { h with outbound := ?_ }
      rw [hspill, append_nil]
      exact hpkt
    exact does_trySend ha (does_ok hsent.ordered hsent)
      (does_ok ha { h with outbound := hpkt }) (does_error ha)
  next oldest spill hspill =>
    rw [hspill] at hpkt
    split
    · exact does_ok ha { h with outbound := hpkt }
    -- the spill is full: the worker waits for room with its oldest packet
    have holdest : (a.push false oldest).outbound ++ (spill ++ [packet]) = emitted ++ [packet] := by
      rw [← hpkt]
      exact append_assoc _ _ _
    refine (does_sendBlocking false oldest (fun back w a =>
      { w with outboundSpill := back.toList ++ w.outboundSpill ++ [packet] }.Keeps (emitted ++ [packet]) emittedPriority a)
      ha ⟨⟨_, holdest⟩, ha.2⟩ (fun _ => ?_) ?_).andThen fun back w a ha hkp => ?_
    · exact { h with outbound := holdest }
    · exact ⟨hpkt, h.priority, h.engine, h.engineOutbound, nofun⟩
    · cases back with
      | none => exact does_ok ha hkp
      | some oldest => exact does_ok ha hkp

/-- **A priority packet goes behind the priority packets emitted before it**; once the session has asked for
the worker it is kept for the engine. -/
theorem does_emitPriority (header : UInt8) (payload : Bytes) (h : w.Keeps emitted emittedPriority a) :
    Settles (w.emitPriority header payload) emitted (emittedPriority ++ [.ok (.new header payload)]) a := by
  have hpkt : a.priority ++ (w.enginePriority ++ [.ok (.new header payload)]) =
      emittedPriority ++ [.ok (.new header payload)] := by
    rw [← append_assoc, h.priority]
  have ha : a.Ordered emitted (emittedPriority ++ [.ok (.new header payload)]) := ⟨⟨_, h.outbound⟩, ⟨_, hpkt⟩⟩
  unfold emitPriority
  split
  next hpend =>
    refine does_ok ha ⟨h.outbound, hpkt, h.engine, h.engineOutbound, fun hnot => ?_⟩
    rw [h.engine, hnot] at hpend
    cases hpend
  next hpend =>
    have hemp : w.enginePriority = [] := by
      refine h.enginePriority (Bool.eq_false_iff.mpr fun hw => hpend ?_)
      rw [hw, Bool.or_true]
    rw [hemp] at hpkt
    refine (does_sendBlocking true (.ok (.new header payload)) (fun back w a =>
      { w with enginePriority := w.enginePriority ++ back.toList }.Keeps emitted
        (emittedPriority ++ [Except.ok (Packet.new header payload)]) a)
      ha ⟨ha.1, ⟨[], ?_⟩⟩ (fun _ => ?_) ?_).andThen fun back w a ha hkp => ?_
    · rw [append_nil]
      exact hpkt
    · refine ⟨h.outbound, ?_, h.engine, h.engineOutbound, fun _ => by rw [hemp]; rfl⟩
      rw [hemp]
      exact (append_nil _).trans hpkt
    · refine ⟨h.outbound, ?_, h.engine, h.engineOutbound, nofun⟩
      rw [hemp]
      exact hpkt
    · cases back with
      | none =>
        have hsame : w.Keeps emitted (emittedPriority ++ [.ok (.new header payload)]) a := by
          have heq : { w with enginePriority := w.enginePriority ++ (none : Option Outbound).toList } = w := by
            rw [Option.toList_none, append_nil]
          rw [heq] at hkp
          exact hkp
        exact does_telling_note hsame
      | some packet => exact does_ok ha hkp

theorem does_handoverRequested (h : w.Keeps emitted emittedPriority a) :
    Settles w.handoverRequested emitted emittedPriority a := by
  unfold handoverRequested
  split
  · exact does_ok h.ordered h
  next hpend =>
    refine does_quiet (fun _ => ⟨_, rfl, rfl⟩) h.ordered fun _ => does_ok h.ordered ?_
    refine { h with enginePriority := fun _ => h.enginePriority ?_ }
    exact Bool.eq_false_iff.mpr fun hw => hpend (by rw [hw, Bool.true_or])

/-- **What an emission does.** -/
theorem does_emission (emission : Emission) (h : w.Keeps emitted emittedPriority a) :
    Settles (emission.run w) (emitted ++ emission.onOrdinary) (emittedPriority ++ emission.onPriority) a := by
  cases emission with
  | ordinary header payload =>
    simp only [Emission.onOrdinary, Emission.onPriority, append_nil]
    exact (does_enqueueOutboundOrdered _ h).andThen fun _ _ _ _ h => does_telling_note h
  | raw header payload =>
    simp only [Emission.onOrdinary, Emission.onPriority, append_nil]
    refine (does_enqueueOutboundOrdered _ h).andThen fun _ w a _ h => ?_
    split
    · exact does_telling_flush h
    · exact does_telling_note h
  | priority header payload =>
    simp only [Emission.onOrdinary, Emission.onPriority, append_nil]
    exact does_emitPriority header payload h

end LaneWorker

end EternalTerminal
