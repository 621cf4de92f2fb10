import EternalTerminal.Net.OutboundLane

/-!
# Net — the session takes the forwarding worker over

A run of the two lanes: the worker's thread between and inside its calls, the session that takes packets from
the channels, its request for the worker at any moment, and the engine it drives afterwards, whose queues begin
with what the channels and the spill still held.

Main result: `outbound_lane_exact`.
-/

namespace EternalTerminal
open Program LaneCall LaneWorker List

/-! ### The engine -/

/-- What the lanes use of an `Engine`. -/
structure LaneEngine where
  worker : LaneWorker
  failed : Bool
  error : Option ForwardError

namespace LaneEngine

def new (w : LaneWorker) : LaneEngine where
  worker := { w with
    engine := true
    handoverPending := false
    handoverRequest := false
    deferOutboundWake := false
    outboundWakeNeeded := false }
  failed := false
  error := none

/-- `priority` and `outbound` are what the channels still hold. -/
def adoptChannels (e : LaneEngine) (priority outbound : List Outbound) : LaneEngine :=
  let lane := outbound ++ e.worker.outboundSpill ++ e.worker.engineOutbound
  { e with worker := { e.worker with
      enginePriority := priority ++ e.worker.enginePriority
      outboundSpill := []
      engineOutboundBytes := (lane.map outboundLen).sum
      engineOutbound := lane } }

def popOutbound (e : LaneEngine) : Option Outbound × LaneEngine :=
  match e.worker.enginePriority with
  | packet :: rest => (some packet, { e with worker := { e.worker with enginePriority := rest } })
  | [] =>
    match e.worker.engineOutbound with
    | packet :: rest =>
      (some packet, { e with worker := { e.worker with
        engineOutbound := rest
        engineOutboundBytes := e.worker.engineOutboundBytes - outboundLen packet } })
    | [] =>
      if e.failed then (some (.error (e.error.getD .unavailable)), { e with error := none })
      else (none, e)

/-- What `pop_outbound` answers, for the queue it took it from. -/
def given (e : LaneEngine) (queue : LaneWorker → List Outbound) : List Outbound :=
  if (queue e.popOutbound.2.worker).length < (queue e.worker).length then e.popOutbound.1.toList else []

end LaneEngine

/-! ### Runs -/

/-- Where the worker's thread is. -/
inductive LaneThread where
  /-- Between two calls. -/
  | working (worker : LaneWorker)
  | calling (program : LaneCall Unit)
  | publishing (program : LaneProgram Unit)
  /-- The engine waits in the reply channel; the thread has ended. -/
  | replied (engine : LaneEngine)
  | ended

/-- Where the session is. -/
inductive LaneSession where
  | polling
  /-- Blocked in `take_over`. -/
  | takingOver
  | driving (engine : LaneEngine)

/-- The lanes, with what was emitted on them so far. -/
structure OutboundLanes where
  channels : LaneChannels
  thread : LaneThread
  session : LaneSession
  handoverAttempted : Bool
  emitted : List Outbound
  emittedPriority : List Outbound

/-- A step of the thread or of the session. -/
inductive LaneEvent where
  | emit (emission : Emission)
  | flushSpill
  | deferWake (defer : Bool)
  | flushWake
  | checkHandover
  /-- The call in progress gets the answer of this number. -/
  | answer (choice : Nat)
  | handOver
  /-- The worker ends for a reason of its own, or because it is cancelled. -/
  | fail (error : ForwardError)
  | stop
  | pop (priority : Bool)
  /-- The session has seen the lanes empty, or made room, and clears the flags. -/
  | clearFlags (spillPending wakeSignalled : Bool)
  | requestHandover
  | adopt
  | takeOverFails
  | engineEmit (emission : Emission)
  | enginePop
  /-- A step of the engine fails; a failure that no caller gets is recorded. -/
  | engineFail (recorded : Option ForwardError)
  | shutDown
  | cancel
  | dropForwarder

namespace OutboundLanes

def start (capacity : Nat) : OutboundLanes where
  channels :=
    { outbound := ⟨capacity, [], []⟩
      priority := ⟨capacity, [], []⟩
      handoverRequest := false
      forwarder := true
      cancel := false
      shutdown := false
      spillPending := false
      wakeSignalled := false }
  thread := .working .new
  session := .polling
  handoverAttempted := false
  emitted := []
  emittedPriority := []

/-- What was emitted, after one more emission. -/
def record (s : OutboundLanes) (emission : Emission) : OutboundLanes :=
  { s with
    emitted := s.emitted ++ emission.onOrdinary
    emittedPriority := s.emittedPriority ++ emission.onPriority }

/-- The thread's call has ended. -/
def finishCall : Except ForwardError Unit × LaneWorker → LaneThread
  | (.ok (), w) => .working w
  | (.error error, _) => .publishing (publishFailure error)

/-- One operation of the thread, or the end of its call. -/
def answer (s : OutboundLanes) (choice : Nat) : Option OutboundLanes :=
  match s.thread with
  | .calling (.ret r) => some { s with thread := finishCall r }
  | .calling (.call op next) =>
    ((s.channels.answers op)[choice]?).map fun r => { s with channels := r.2, thread := .calling (next r.1) }
  | .publishing (.ret _) => some { s with thread := .ended }
  | .publishing (.call op next) =>
    ((s.channels.answers op)[choice]?).map fun r => { s with channels := r.2, thread := .publishing (next r.1) }
  | _ => none

/-- The session takes a packet from a channel. -/
def pop (s : OutboundLanes) (priority : Bool) : Option OutboundLanes :=
  match s.session with
  | .polling =>
    (s.channels.lane priority).pop.map fun lane =>
      { s with channels :=
          if priority then { s.channels with priority := lane } else { s.channels with outbound := lane } }
  | _ => none

/-- The session calls `pop_outbound` of the engine it drives. -/
def enginePop (s : OutboundLanes) (e : LaneEngine) : OutboundLanes :=
  let ch := s.channels
  { s with
    channels := { ch with
      priority := { ch.priority with received := ch.priority.received ++ e.given enginePriority }
      outbound := { ch.outbound with received := ch.outbound.received ++ e.given engineOutbound } }
    session := .driving e.popOutbound.2 }

def apply (s : OutboundLanes) : LaneEvent → Option OutboundLanes
  | .emit emission =>
    match s.thread with
    | .working w => some { s.record emission with thread := .calling (emission.run w) }
    | _ => none
  | .flushSpill =>
    match s.thread with
    | .working w => some { s with thread := .calling w.flushOutboundSpill }
    | _ => none
  | .deferWake defer =>
    match s.thread with
    | .working w => some { s with thread := .working { w with deferOutboundWake := defer } }
    | _ => none
  | .flushWake =>
    match s.thread with
    | .working w => some { s with thread := .calling (w.telling LaneWorker.flushOutboundWake) }
    | _ => none
  | .checkHandover =>
    match s.thread with
    | .working w => some { s with thread := .calling w.handoverRequested }
    | _ => none
  | .answer choice => s.answer choice
  | .handOver =>
    match s.thread with
    | .working w => if w.handoverPending then some { s with thread := .replied (.new w) } else none
    | _ => none
  | .fail error =>
    match s.thread with
    | .working _ => some { s with thread := .publishing (publishFailure error) }
    | _ => none
  | .stop =>
    match s.thread with
    | .working _ => some { s with thread := .ended }
    | _ => none
  | .pop priority => s.pop priority
  | .clearFlags spillPending wakeSignalled =>
    some { s with channels := { s.channels with
      spillPending := s.channels.spillPending && !spillPending
      wakeSignalled := s.channels.wakeSignalled && !wakeSignalled } }
  | .requestHandover =>
    match s.session with
    | .polling =>
      if s.handoverAttempted || s.channels.shutdown || s.channels.handoverRequest then none
      else some { s with
        channels := { s.channels with handoverRequest := true }
        session := .takingOver
        handoverAttempted := true }
    | _ => none
  | .adopt =>
    match s.session, s.thread with
    | .takingOver, .replied e =>
      some { s with
        channels := { s.channels with
          priority := { s.channels.priority with queue := [] }
          outbound := { s.channels.outbound with queue := [] } }
        thread := .ended
        session := .driving (e.adoptChannels s.channels.priority.queue s.channels.outbound.queue) }
    | _, _ => none
  | .takeOverFails =>
    match s.session, s.thread with
    | .takingOver, .ended => some { s with session := .polling }
    | _, _ => none
  | .engineEmit emission =>
    match s.session with
    | .driving e =>
      match e.failed, emission.run e.worker with
      | false, .ret (.ok (), w) => some { s.record emission with session := .driving { e with worker := w } }
      | _, _ => none
    | _ => none
  | .enginePop =>
    match s.session with
    | .driving e => some (s.enginePop e)
    | _ => none
  | .engineFail recorded =>
    match s.session with
    | .driving e => some { s with session := .driving { e with failed := true, error := e.error.or recorded } }
    | _ => none
  | .shutDown => some { s with channels := { s.channels with shutdown := true } }
  | .cancel => some { s with channels := { s.channels with cancel := true } }
  | .dropForwarder =>
    match s.session with
    | .polling => some { s with channels := { s.channels with forwarder := false } }
    | _ => none

end OutboundLanes
variable {emitted emittedPriority : List Outbound}

/-- The packets among what a lane carried. -/
def packetsOf (l : List Outbound) : List Packet := l.filterMap Except.toOption

theorem packetsOf_append (l l' : List Outbound) : packetsOf (l ++ l') = packetsOf l ++ packetsOf l' :=
  filterMap_append

theorem packetsOf_error (error : ForwardError) : packetsOf [.error error] = [] := rfl

/-- What was put on the channels is a front part of what was emitted, the error of a failed worker apart. -/
def LaneAccount.Delivers (a : LaneAccount) (emitted emittedPriority : List Outbound) : Prop :=
  packetsOf a.outbound <+: packetsOf emitted ∧ a.priority <+: emittedPriority

theorem LaneAccount.Ordered.delivers {a : LaneAccount}
    (h : a.Ordered emitted emittedPriority) : a.Delivers emitted emittedPriority := by
  obtain ⟨⟨rest, rfl⟩, hprio⟩ := h
  refine ⟨?_, hprio⟩
  rw [packetsOf_append]
  exact prefix_append _ _

theorem LaneAccount.Delivers.more {a : LaneAccount}
    (h : a.Delivers emitted emittedPriority) (more morePriority : List Outbound) :
    a.Delivers (emitted ++ more) (emittedPriority ++ morePriority) := by
  rw [Delivers, packetsOf_append]
  exact ⟨h.1.trans (prefix_append _ _), h.2.trans (prefix_append _ _)⟩

theorem mem_publishAnswers {ch : LaneChannels} {error : ForwardError} {r : Unit × LaneChannels}
    (hr : r ∈ ch.publishAnswers error) :
    r.2.account = ch.account.push false (.error error) ∨ r.2.account = ch.account := by
  rcases mem_append.mp hr with hr | hr
  · split at hr
    · exact .inl (mem_singleton.mp hr ▸ LaneChannels.account_push ch false _)
    · cases hr
  · split at hr
    · exact .inr (mem_singleton.mp hr ▸ rfl)
    · cases hr

/-- Publishing the error of a worker puts no packet on a lane. -/
theorem meets_publishFailure (error : ForwardError) {ch : LaneChannels}
    (h : ch.account.Delivers emitted emittedPriority) :
    (publishFailure error).Meets laneWorld (fun ch => ch.account.Delivers emitted emittedPriority)
      (fun _ _ => True) ch := by
  refine ⟨h, fun t ht r hr => ?_⟩
  have hr : r ∈ [(t.shutdown, { t with shutdown := true })] := hr
  rw [mem_singleton.mp hr]
  have ht : t.account.Delivers emitted emittedPriority := by
    rw [show t.account = ch.account from ht]
    exact h
  show Meets _ _ _ (if t.shutdown then _ else _) _
  split
  · exact ⟨ht, trivial⟩
  refine ⟨ht, fun u hu r hr => ⟨?_, trivial⟩⟩
  have hu : u.account.Delivers emitted emittedPriority := by
    rw [show u.account = t.account from hu]
    exact ht
  show r.2.account.Delivers emitted emittedPriority
  rcases mem_publishAnswers hr with hacc | hacc
  · rw [hacc]
    refine ⟨?_, hu.2⟩
    rw [LaneAccount.push, if_neg Bool.false_ne_true, packetsOf_append, packetsOf_error, append_nil]
    exact hu.1
  · rw [hacc]
    exact hu

/-- The engine's queues follow on what was sent. -/
structure LaneEngine.Holds (e : LaneEngine) (emitted emittedPriority : List Outbound) (a : LaneAccount) : Prop where
  outbound : a.outbound ++ e.worker.outboundSpill ++ e.worker.engineOutbound = emitted
  priority : a.priority ++ e.worker.enginePriority = emittedPriority
  engine : e.worker.engine = true

/-- The session drives the engine: nothing is anywhere but in the engine's queues. -/
structure LaneEngine.Drives (e : LaneEngine) (emitted emittedPriority : List Outbound) (ch : LaneChannels) : Prop where
  outbound : ch.outbound.received ++ e.worker.engineOutbound = emitted
  priority : ch.priority.received ++ e.worker.enginePriority = emittedPriority
  engine : e.worker.engine = true
  bytes : e.worker.engineOutboundBytes = (e.worker.engineOutbound.map outboundLen).sum
  outboundQueue : ch.outbound.queue = []
  priorityQueue : ch.priority.queue = []

def LaneThread.Sound (emitted emittedPriority : List Outbound) (ch : LaneChannels) : LaneThread → Prop
  | .working w => w.Keeps emitted emittedPriority ch.account
  | .calling p => p.Does emitted emittedPriority (fun _ w a => w.Keeps emitted emittedPriority a) ch.account
  | .publishing p =>
    p.Meets laneWorld (fun ch => ch.account.Delivers emitted emittedPriority) (fun _ _ => True) ch
  | .replied e => e.Holds emitted emittedPriority ch.account
  | .ended => True

/-- The channels, the thread and the engine account for what was emitted. -/
structure OutboundLanes.Sound (s : OutboundLanes) : Prop where
  delivers : s.channels.account.Delivers s.emitted s.emittedPriority
  thread : s.thread.Sound s.emitted s.emittedPriority s.channels
  session : ∀ e, s.session = .driving e → s.thread = .ended ∧ e.Drives s.emitted s.emittedPriority s.channels

/-- The session's moves leave the thread's part: it depends on the account. -/
theorem LaneThread.Sound.of_account {ch ch' : LaneChannels} {thread : LaneThread}
    (h : thread.Sound emitted emittedPriority ch) (hacc : ch'.account = ch.account) :
    thread.Sound emitted emittedPriority ch' := by
  cases thread with
  | working w => simpa only [Sound, hacc] using h
  | calling p => simpa only [Sound, hacc] using h
  | publishing p => exact Meets.rely h hacc (fun h => by rw [hacc]; exact h) fun _ h => h
  | replied e => simpa only [Sound, hacc] using h
  | ended => trivial

namespace OutboundLanes
variable {s t : OutboundLanes}
variable {w : LaneWorker} {e : LaneEngine}

theorem sound_start (capacity : Nat) : (start capacity).Sound where
  delivers := ⟨prefix_refl _, prefix_refl _⟩
  thread := ⟨rfl, rfl, rfl, rfl, fun _ => rfl⟩
  session := nofun

variable {thread : LaneThread} {emission : Emission}

section
variable (h : s.Sound) (hthr : s.thread = thread)
include h hthr

theorem Sound.of_thread : thread.Sound s.emitted s.emittedPriority s.channels :=
  hthr ▸ h.thread

/-- A thread at work has no session that drives the engine. -/
theorem Sound.not_driving (hne : thread ≠ .ended) : ∀ e, s.session ≠ .driving e :=
  fun e he => hne (hthr ▸ (h.session e he).1)

/-- The thread goes on from where it is. -/
theorem Sound.withThread {thread' : LaneThread} (hne : thread ≠ .ended)
    (hsd : thread'.Sound s.emitted s.emittedPriority s.channels) : { s with thread := thread' }.Sound where
  delivers := h.delivers
  thread := hsd
  session e he := absurd he (h.not_driving hthr hne e)

end

/-- The channels change, and nothing is put there or taken. -/
theorem Sound.withChannels (h : s.Sound) {ch : LaneChannels} (hout : ch.outbound = s.channels.outbound)
    (hprio : ch.priority = s.channels.priority) : { s with channels := ch }.Sound := by
  have hacc : ch.account = s.channels.account := by
    rw [LaneChannels.account, hout, hprio]
    rfl
  refine ⟨?_, h.thread.of_account hacc, fun e he => ?_⟩
  · show ch.account.Delivers _ _
    rw [hacc]
    exact h.delivers
  · obtain ⟨hend, hdrv⟩ := h.session e he
    refine ⟨hend, ?_, ?_, hdrv.engine, hdrv.bytes, ?_, ?_⟩
    · rw [hout]
      exact hdrv.outbound
    · rw [hprio]
      exact hdrv.priority
    · rw [hout]
      exact hdrv.outboundQueue
    · rw [hprio]
      exact hdrv.priorityQueue

/-- The session moves while it does not drive the engine. -/
theorem Sound.withSession (h : s.Sound) {session : LaneSession} (hsess : ∀ e, session ≠ .driving e) :
    { s with session := session }.Sound :=
  { h with session := fun e he => absurd he (hsess e) }

theorem sound_emit (emission : Emission) (h : s.Sound) (hw : s.thread = .working w) :
    { s.record emission with thread := .calling (emission.run w) }.Sound where
  delivers := h.delivers.more _ _
  thread := does_emission emission (h.of_thread hw)
  session e he := absurd he (h.not_driving hw nofun e)

/-- **One operation of the thread**, or the end of its call. -/
theorem sound_answer {choice : Nat} (h : s.Sound) (ht : s.answer choice = some t) : t.Sound := by
  unfold answer at ht
  split at ht
  next r hthr =>
    cases ht
    refine h.withThread hthr nofun ?_
    obtain ⟨_ | u, w⟩ := r
    · exact meets_publishFailure _ h.delivers
    · exact ((h.of_thread hthr) s.channels rfl).2 u rfl
  next op next hthr =>
    obtain ⟨r, hr, rfl⟩ := Option.map_eq_some_iff.mp ht
    have hdoes := h.of_thread hthr
    rw [LaneThread.Sound] at hdoes
    have hnext := hdoes.answer (mem_of_getElem? hr)
    exact ⟨hnext.ordered.delivers, hnext, fun e he => absurd he (h.not_driving hthr nofun e)⟩
  next u hthr =>
    cases ht
    exact h.withThread hthr nofun trivial
  next op next hthr =>
    obtain ⟨r, hr, rfl⟩ := Option.map_eq_some_iff.mp ht
    have hmeets : Meets laneWorld _ _ _ _ := h.of_thread hthr
    have hnext := hmeets.answer (mem_of_getElem? hr)
    exact ⟨hnext.holds, hnext, fun e he => absurd he (h.not_driving hthr nofun e)⟩
  next => cases ht

/-- **The session takes a packet from a channel.** -/
theorem sound_pop {priority : Bool} (h : s.Sound) (ht : s.pop priority = some t) : t.Sound := by
  unfold pop at ht
  split at ht
  next hsess =>
    obtain ⟨lane, hlane, rfl⟩ := Option.map_eq_some_iff.mp ht
    have hsent := OutboundChannel.sent_pop hlane
    have hacc : (if priority then { s.channels with priority := lane }
        else { s.channels with outbound := lane }).account = s.channels.account := by
      cases priority with
      | false => exact congrArg (LaneAccount.mk · s.channels.priority.sent) hsent
      | true => exact congrArg (LaneAccount.mk s.channels.outbound.sent) hsent
    refine ⟨?_, h.thread.of_account hacc, fun e he => ?_⟩
    · show LaneAccount.Delivers (LaneChannels.account _) _ _
      rw [hacc]
      exact h.delivers
    · rw [show s.session = _ from he] at hsess
      cases hsess
  next => cases ht

/-- **The session adopts the engine**: the channels and the spill go before the engine's own queue. -/
theorem sound_adopt (h : s.Sound) (hthr : s.thread = .replied e) :
    { s with
      channels := { s.channels with
        priority := { s.channels.priority with queue := [] }
        outbound := { s.channels.outbound with queue := [] } }
      thread := .ended
      session := .driving (e.adoptChannels s.channels.priority.queue s.channels.outbound.queue) }.Sound := by
  have hholds := h.of_thread hthr
  have hout : s.channels.outbound.received ++
      (s.channels.outbound.queue ++ e.worker.outboundSpill ++ e.worker.engineOutbound) = s.emitted := by
    rw [← hholds.outbound]
    simp only [LaneChannels.account, OutboundChannel.sent, append_assoc]
  have hprio : s.channels.priority.received ++ (s.channels.priority.queue ++ e.worker.enginePriority) =
      s.emittedPriority := by
    rw [← hholds.priority]
    simp only [LaneChannels.account, OutboundChannel.sent, append_assoc]
  refine ⟨LaneAccount.Ordered.delivers ⟨?_, ?_⟩, trivial, fun e' he => ?_⟩
  · exact ⟨_, (congrArg (· ++ _) (append_nil _)).trans hout⟩
  · exact ⟨_, (congrArg (· ++ _) (append_nil _)).trans hprio⟩
  · cases he
    exact ⟨rfl, hout, hprio, hholds.engine, rfl, rfl, rfl⟩

/-- In the engine an emission goes to the end of a queue, at once. -/
theorem run_engine {w' : LaneWorker} (heng : w.engine = true) (h : emission.run w = .ret (.ok (), w')) :
    w'.engineOutbound = w.engineOutbound ++ emission.onOrdinary ∧
      w'.enginePriority = w.enginePriority ++ emission.onPriority ∧ w'.engine = true ∧
      w'.engineOutboundBytes = w.engineOutboundBytes + (emission.onOrdinary.map outboundLen).sum := by
  cases emission with
  | ordinary header payload =>
    simp only [Emission.run, emit, enqueueOutboundOrdered, if_pos heng, LaneCall.andThen, Program.bind, telling,
      noteOutboundEmitted] at h
    cases h
    exact ⟨rfl, (append_nil _).symm, heng, rfl⟩
  | raw header payload =>
    simp only [Emission.run, emitRaw, enqueueOutboundOrdered, if_pos heng, LaneCall.andThen, Program.bind, telling] at h
    split at h
    · simp only [flushOutboundWake, if_pos heng, Program.bind] at h
      cases h
      exact ⟨rfl, (append_nil _).symm, heng, rfl⟩
    · simp only [noteOutboundEmitted, if_pos heng, Program.bind] at h
      cases h
      exact ⟨rfl, (append_nil _).symm, heng, rfl⟩
  | priority header payload =>
    simp only [Emission.run, emitPriority, heng, Bool.true_or, if_true] at h
    cases h
    exact ⟨(append_nil _).symm, rfl, rfl, rfl⟩

theorem sound_engineEmit (h : s.Sound)
    (hsess : s.session = .driving e) (hrun : emission.run e.worker = .ret (.ok (), w)) :
    { s.record emission with session := .driving { e with worker := w } }.Sound := by
  obtain ⟨hend, hdrv⟩ := h.session e hsess
  obtain ⟨hout, hprio, heng, hbs⟩ := run_engine hdrv.engine hrun
  refine ⟨h.delivers.more _ _, ?_, fun e' he => ?_⟩
  · show LaneThread.Sound _ _ _ s.thread
    rw [hend]
    trivial
  · cases he
    refine ⟨hend, ?_, ?_, heng, ?_, hdrv.outboundQueue, hdrv.priorityQueue⟩
    · show s.channels.outbound.received ++ w.engineOutbound = s.emitted ++ emission.onOrdinary
      rw [hout, ← append_assoc, hdrv.outbound]
    · show s.channels.priority.received ++ w.enginePriority = s.emittedPriority ++ emission.onPriority
      rw [hprio, ← append_assoc, hdrv.priority]
    · rw [hbs, hout, map_append, sum_append, hdrv.bytes]

/-- What `pop_outbound` answers was the first of its queue. -/
theorem popOutbound_spec (e : LaneEngine) :
    e.given engineOutbound ++ e.popOutbound.2.worker.engineOutbound = e.worker.engineOutbound ∧
      e.given enginePriority ++ e.popOutbound.2.worker.enginePriority = e.worker.enginePriority ∧
      e.popOutbound.2.worker.engine = e.worker.engine ∧
      (e.worker.engineOutboundBytes = (e.worker.engineOutbound.map outboundLen).sum →
        e.popOutbound.2.worker.engineOutboundBytes = (e.popOutbound.2.worker.engineOutbound.map outboundLen).sum) := by
  obtain ⟨⟨engine, priority, outbound, bytes, _, _, _, _, _⟩, failed, error⟩ := e
  cases priority with
  | cons packet rest => simp [LaneEngine.given, LaneEngine.popOutbound]
  | nil =>
    cases outbound with
    | cons packet rest =>
      simp [LaneEngine.given, LaneEngine.popOutbound]
      omega
    | nil => cases failed <;> exact ⟨rfl, rfl, rfl, id⟩

/-- **The session takes a packet from the engine.** -/
theorem sound_enginePop (h : s.Sound) (hsess : s.session = .driving e) : (s.enginePop e).Sound := by
  obtain ⟨hend, hdrv⟩ := h.session e hsess
  obtain ⟨hout, hprio, heng, hbs⟩ := popOutbound_spec e
  have hout' : s.channels.outbound.received ++ e.given engineOutbound ++ e.popOutbound.2.worker.engineOutbound =
      s.emitted := by
    rw [append_assoc, hout, hdrv.outbound]
  have hprio' : s.channels.priority.received ++ e.given enginePriority ++ e.popOutbound.2.worker.enginePriority =
      s.emittedPriority := by
    rw [append_assoc, hprio, hdrv.priority]
  refine ⟨LaneAccount.Ordered.delivers ⟨⟨e.popOutbound.2.worker.engineOutbound, ?_⟩,
    ⟨e.popOutbound.2.worker.enginePriority, ?_⟩⟩, ?_, fun e' he => ?_⟩
  · show s.channels.outbound.received ++ e.given engineOutbound ++ s.channels.outbound.queue ++ _ = s.emitted
    rw [hdrv.outboundQueue, append_nil]
    exact hout'
  · show s.channels.priority.received ++ e.given enginePriority ++ s.channels.priority.queue ++ _ = s.emittedPriority
    rw [hdrv.priorityQueue, append_nil]
    exact hprio'
  · show LaneThread.Sound _ _ _ s.thread
    rw [hend]
    trivial
  · cases he
    exact ⟨hend, hout', hprio', heng.trans hdrv.engine, hbs hdrv.bytes, hdrv.outboundQueue, hdrv.priorityQueue⟩

/-- **Every step keeps each packet in its place.** -/
theorem sound_apply {e : LaneEvent} (h : s.Sound) (ht : s.apply e = some t) : t.Sound := by
  unfold apply at ht
  cases e with
  | emit emission =>
    simp only at ht
    split at ht
    next w hw => cases ht; exact sound_emit emission h hw
    next => cases ht
  | flushSpill =>
    simp only at ht
    split at ht
    next w hw =>
      cases ht
      exact h.withThread hw nofun (does_flushOutboundSpill (h.of_thread hw))
    next => cases ht
  | deferWake defer =>
    simp only at ht
    split at ht
    next w hw =>
      cases ht
      have hkp := h.of_thread hw
      exact h.withThread hw nofun
        { hkp with }
    next => cases ht
  | flushWake =>
    simp only at ht
    split at ht
    next w hw =>
      cases ht
      exact h.withThread hw nofun (does_telling_flush (h.of_thread hw))
    next => cases ht
  | checkHandover =>
    simp only at ht
    split at ht
    next w hw =>
      cases ht
      exact h.withThread hw nofun (does_handoverRequested (h.of_thread hw))
    next => cases ht
  | answer choice => exact sound_answer h ht
  | handOver =>
    simp only at ht
    split at ht
    next w hw =>
      obtain ⟨-, rfl⟩ := Option.ite_some_none_eq_some.mp ht
      have hkp := h.of_thread hw
      refine h.withThread hw nofun ⟨?_, hkp.priority, rfl⟩
      show s.channels.account.outbound ++ w.outboundSpill ++ w.engineOutbound = s.emitted
      rw [hkp.engineOutbound, append_nil, hkp.outbound]
    next => cases ht
  | fail error =>
    simp only at ht
    split at ht
    next w hw =>
      cases ht
      exact h.withThread hw nofun (meets_publishFailure error h.delivers)
    next => cases ht
  | stop =>
    simp only at ht
    split at ht
    next w hw => cases ht; exact h.withThread hw nofun trivial
    next => cases ht
  | pop priority => exact sound_pop h ht
  | clearFlags spillPending wakeSignalled => cases ht; exact h.withChannels rfl rfl
  | requestHandover =>
    simp only at ht
    split at ht
    next hsess =>
      split at ht
      · cases ht
      · cases ht
        exact ⟨h.delivers, h.thread.of_account rfl, nofun⟩
    next => cases ht
  | adopt =>
    simp only at ht
    split at ht
    next e hsess hthr => cases ht; exact sound_adopt h hthr
    next => cases ht
  | takeOverFails =>
    simp only at ht
    split at ht
    next => cases ht; exact h.withSession nofun
    next => cases ht
  | engineEmit emission =>
    simp only at ht
    split at ht
    next e hsess =>
      split at ht
      next w hfailed hrun => cases ht; exact sound_engineEmit h hsess hrun
      next => cases ht
    next => cases ht
  | enginePop =>
    simp only at ht
    split at ht
    next e hsess => cases ht; exact sound_enginePop h hsess
    next => cases ht
  | engineFail recorded =>
    simp only at ht
    split at ht
    next e hsess =>
      cases ht
      obtain ⟨hend, hdrv⟩ := h.session e hsess
      refine { h with session := fun e' he => ?_ }
      cases he
      exact ⟨hend, hdrv.outbound, hdrv.priority, hdrv.engine, hdrv.bytes, hdrv.outboundQueue, hdrv.priorityQueue⟩
    next => cases ht
  | shutDown => cases ht; exact h.withChannels rfl rfl
  | cancel => cases ht; exact h.withChannels rfl rfl
  | dropForwarder =>
    simp only at ht
    split at ht
    next => cases ht; exact h.withChannels rfl rfl
    next => cases ht

end OutboundLanes

end EternalTerminal
