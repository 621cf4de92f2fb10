import EternalTerminal.Net.SocketAccounts

/-!
# Net — the sockets of a forwarding worker

One worker with all its sockets and the buffers it holds back because a socket's queue was full.  What was
admitted for a socket and what was written to it since it became active is kept as history.

Main results: `written_in_order`, `held_overtaken`.
-/

namespace EternalTerminal
open Machine Bytes History SocketIo List Option Relation Function
variable {s s' : SocketIo}
variable (role : Role) (socketId : Int)

/-! ### The order in one socket -/

/-- No queued buffer is empty or wholly written. -/
structure QueueSound (s : SocketIo) : Prop where
  nonempty : ∀ b ∈ s.out, 0 < b.len
  offset : OffsetWithin s.out s.outOffset

/-- The bytes queued for the local socket that it has not taken. -/
def SocketIo.queued (s : SocketIo) : Bytes := unwritten s.out s.outOffset

/-- A write side that is shut down has nothing queued. -/
def SocketIo.Shut (s : SocketIo) : Prop := s.writeClosed = true → s.out = []

/-- From `s` to `s'` the front of the queue was written. -/
structure Writes (s s' : SocketIo) (written : Bytes) : Prop where
  queue : QueueSound s'
  bytes : written ++ s'.queued = s.queued
  isWriteClosed : s.isWriteClosed = true → s'.isWriteClosed = true
  shut : s.Shut → s'.Shut

theorem Writes.refl (h : QueueSound s) : Writes s s [] := ⟨h, nil_append _, id, id⟩

variable {r : Handled} {s s₁ s' : SocketIo} {buffer written' : Bytes} {b : QueuedBuffer} {key' : SocketKey}

theorem Writes.trans {s₂ s₃ : SocketIo} {written : Bytes} (h : Writes s₁ s₂ written)
    (h' : Writes s₂ s₃ written') : Writes s₁ s₃ (written ++ written') :=
  ⟨h'.queue, by rw [append_assoc, h'.bytes, h.bytes], fun hcl => h'.isWriteClosed (h.isWriteClosed hcl),
    fun hshut => h'.shut (h.shut hshut)⟩

/-- Nothing is written as long as the queue stays as it is. -/
theorem Writes.of_queue (h : QueueSound s) (hout : s'.out = s.out) (hoff : s'.outOffset = s.outOffset)
    (hcl : s.isWriteClosed = true → s'.isWriteClosed = true)
    (hshut : s'.writeClosed = true → s.writeClosed = true ∨ s.out = []) : Writes s s' [] := by
  refine ⟨⟨?_, ?_⟩, ?_, hcl, fun hs hs' => hout.trans ((hshut hs').elim hs id)⟩
  · rw [hout]
    exact h.nonempty
  · rw [hout, hoff]
    exact h.offset
  · rw [SocketIo.queued, hout, hoff]
    rfl

theorem writes_flushOut (h : QueueSound s) (results : List WriteResult) :
    Writes s (s.flushOut results).2.1 (s.flushOut results).2.2 := by
  obtain ⟨hbs, hoff, hsuf, -⟩ := flushOut_spec h.nonempty h.offset results
  have hwrote := wrote_flushOut s results
  refine ⟨⟨fun b hb => h.nonempty b (hsuf.subset hb), hoff⟩, hbs,
    fun hcl => hwrote.isWriteClosed.trans hcl, fun hs hs' => ?_⟩
  rw [hs (hwrote.writeClosed ▸ hs')] at hsuf
  exact suffix_nil.mp hsuf

theorem writes_shutdownDrained (h : QueueSound s) (hemp : s.out.isEmpty = true) : Writes s s.shutdownDrained [] := by
  unfold shutdownDrained
  split
  · refine .of_queue h rfl rfl (fun _ => ?_) fun _ => .inr (List.isEmpty_iff.mp hemp)
    simp only [isWriteClosed, Bool.true_or]
  · exact .refl h

theorem sameReceiver_readTurns (s : SocketIo) (split : Option (Nat × Nat)) (reads : Nat) (turns : List ReadTurn) :
    SameReceiver s (s.readTurns split reads turns).2.1 := by
  induction turns generalizing s split reads with
  | nil => exact .refl s
  | cons turn turns ih =>
    rw [readTurns]
    split
    · have hread := sameReceiver_readEncodedChunk s (readLen split) turn.reads
      generalize s.readEncodedChunk (readLen split) turn.reads = result at hread ⊢
      obtain ⟨outcome, s'⟩ := result
      cases outcome with
      | error error => exact hread
      | ok outcome =>
        cases outcome with
        | idle => exact hread
        | eof => exact hread
        | data buffer =>
          dsimp only
          split
          · exact hread
          · exact hread.trans (ih _ _ _)
    · exact .refl s

section
variable (h : QueueSound s)
include h

theorem writes_readTurns (split : Option (Nat × Nat)) (reads : Nat) (turns : List ReadTurn) :
    Writes s (s.readTurns split reads turns).2.1 [] := by
  have hsame := sameReceiver_readTurns s split reads turns
  exact .of_queue h hsame.out hsame.outOffset (fun hcl => hsame.isWriteClosed.trans hcl)
    fun hs' => .inl (hsame.writeClosed ▸ hs')

/-- **What servicing a socket writes is the front of its queue.** -/
theorem writes_serviceSocket (event : ReadySocket) (writes : List WriteResult) (turns : List ReadTurn) :
    Writes s (s.serviceSocket event writes turns).2.1 (s.serviceSocket event writes turns).2.2.2 := by
  unfold serviceSocket
  obtain ⟨flush, hflu⟩ : ∃ flush, (if event.writable || (event.error && s.writeInterest) then s.flushOut writes
    else (.ok (), s, [])) = flush := ⟨_, rfl⟩
  have hwr : Writes s flush.2.1 flush.2.2 := by
    rw [← hflu]
    split
    · exact writes_flushOut h writes
    · exact .refl h
  rw [hflu]
  obtain ⟨result, s₁, written⟩ := flush
  cases result with
  | error error => exact hwr
  | ok _ =>
    dsimp only at hwr ⊢
    split
    · exact hwr
    have hdown : Writes s (if s₁.out.isEmpty then s₁.shutdownDrained else s₁) written := by
      split
      next hemp =>
        have := hwr.trans (writes_shutdownDrained hwr.queue hemp)
        rwa [append_nil] at this
      · exact hwr
    generalize (if s₁.out.isEmpty then s₁.shutdownDrained else s₁) = s₂ at hdown ⊢
    split
    · exact hdown
    obtain ⟨result, hres⟩ : ∃ result, (if event.readable then s₂.readTurns none 0 turns else (none, s₂, [])) =
      result := ⟨_, rfl⟩
    have hturns : Writes s₂ result.2.1 [] := by
      rw [← hres]
      split
      · exact writes_readTurns hdown.queue none 0 turns
      · exact .refl hdown.queue
    have hboth := hdown.trans hturns
    rw [append_nil] at hboth
    rw [hres]
    obtain ⟨verdict, s₃, emitted⟩ := result
    cases verdict <;> exact hboth

theorem writes_readClosed (hs' : (readClosed role socketId (some s)).socket = some s') : Writes s s' [] := by
  unfold readClosed at hs'
  dsimp only at hs'
  split at hs'
  · cases hs'
    exact .refl h
  split at hs'
  · cases hs'
    exact .of_queue h rfl rfl id .inl
  split at hs'
  · cases hs'
  · cases hs'
    refine .of_queue h rfl rfl (fun _ => ?_) .inl
    simp only [isWriteClosed, Bool.or_true, Bool.true_or]

theorem writes_serviceEvent (event : ReadySocket) (writes : List WriteResult) (turns : List ReadTurn)
    (hs' : (serviceEvent role socketId (some s) event writes turns).socket = some s') :
    Writes s s' (serviceEvent role socketId (some s) event writes turns).written := by
  have hwr := writes_serviceSocket h event writes turns
  unfold serviceEvent at hs' ⊢
  dsimp only at hs' ⊢
  generalize s.serviceSocket event writes turns = result at hwr hs' ⊢
  obtain ⟨verdict, s₁, emitted, written⟩ := result
  cases verdict with
  | keep =>
    cases hs'
    exact hwr
  | drop => cases hs'
  | eof =>
    have := hwr.trans (writes_readClosed role socketId hwr.queue hs')
    rwa [append_nil] at this

theorem writes_takeCredit : Writes s s.takeCredit.2 [] := by
  unfold takeCredit
  split
  · exact .refl h
  · exact .of_queue h rfl rfl id .inl

theorem writes_flushDueCredits (hs' : (flushDueCredits role socketId (some s)).socket = some s') :
    Writes s s' [] := by
  have htak := writes_takeCredit h
  unfold flushDueCredits at hs'
  dsimp only at hs'
  split at hs'
  · generalize s.takeCredit = taken at htak hs'
    obtain ⟨credit, s₁⟩ := taken
    cases credit <;> (cases hs'; exact htak)
  · cases hs'
    exact .refl h

theorem writes_flushQueuedWrite (writes : List WriteResult) :
    ∀ s', (flushQueuedWrite role socketId (some s) writes).socket = some s' →
      Writes s s' (flushQueuedWrite role socketId (some s) writes).written := by
  have hwr := writes_flushOut h writes
  unfold flushQueuedWrite
  dsimp only
  split
  · intro s' hs'
    cases hs'
    exact .refl h
  generalize s.flushOut writes = flushed at hwr ⊢
  obtain ⟨result, s₁, written⟩ := flushed
  cases result with
  | error error =>
    intro s' hs'
    cases hs'
  | ok _ =>
    dsimp only at hwr ⊢
    obtain ⟨taken, htak⟩ : ∃ taken, (if s₁.out.isEmpty && s₁.creditDue then s₁.takeCredit else (none, s₁)) = taken :=
      ⟨_, rfl⟩
    have hcred : Writes s₁ taken.2 [] := by
      rw [← htak]
      split
      · exact writes_takeCredit hwr.queue
      · exact .refl hwr.queue
    have hboth := hwr.trans hcred
    rw [append_nil] at hboth
    rw [htak]
    split
    · intro s' hs'
      cases hs'
    intro s' hs'
    cases hs'
    split
    next hemp =>
      have := hboth.trans (writes_shutdownDrained hboth.queue hemp)
      rwa [append_nil] at this
    · exact hboth

end

/-- An operation on a socket that writes the front of its queue. -/
structure Flushes (socket : Option SocketIo) (r : Handled) : Prop where
  gone : socket = none → r.socket = none ∧ r.written = []
  held : r.held = []
  writes : ∀ s s', socket = some s → r.socket = some s' → QueueSound s → Writes s s' r.written

section
variable (socket : Option SocketIo)

theorem flushes_serviceEvent (event : ReadySocket) (writes : List WriteResult) (turns : List ReadTurn) :
    Flushes socket (serviceEvent role socketId socket event writes turns) := by
  refine ⟨?_, held_serviceEvent _ _ _ _ _ _, ?_⟩
  · rintro rfl
    exact ⟨rfl, rfl⟩
  · rintro s s' rfl hs' hq
    exact writes_serviceEvent role socketId hq event writes turns hs'

theorem flushes_flushQueuedWrite (writes : List WriteResult) :
    Flushes socket (flushQueuedWrite role socketId socket writes) := by
  refine ⟨?_, held_flushQueuedWrite _ _ _ _, ?_⟩
  · rintro rfl
    exact ⟨rfl, rfl⟩
  · rintro s s' rfl hs' hq
    exact writes_flushQueuedWrite role socketId hq writes s' hs'

theorem flushes_flushDueCredits : Flushes socket (flushDueCredits role socketId socket) := by
  obtain ⟨hheld, hwr⟩ := held_flushDueCredits role socketId socket
  refine ⟨?_, hheld, ?_⟩
  · rintro rfl
    exact ⟨rfl, rfl⟩
  · rintro s s' rfl hs' hq
    rw [hwr]
    exact writes_flushDueCredits role socketId hq hs'

end

/-! ### Data that arrives -/

/-- The buffer a packet brings for a socket whose write side is open. -/
def admittedBuffer (role : Role) (socket : Option SocketIo) (d : PortForwardData) : Bytes :=
  if d.error.isSome || (role == .destination && d.halfClose.getD false) || d.closed.getD false then []
  else if maxDataPacket < (d.buffer.getD []).length then []
  else if socket.any fun s => !s.isWriteClosed then d.buffer.getD []
  else []

/-- What is admitted goes to the end of the queue or is held back; a full queue stays as it is. -/
structure Admits (s : SocketIo) (admitted : Bytes) (h : Handled) (s' : SocketIo) : Prop where
  queue : QueueSound s'
  bytes : s'.queued ++ h.held.flatten = s.queued ++ admitted
  full : outQueuePackets ≤ s.out.length → s'.queued = s.queued ∧ h.held.flatten = admitted
  isWriteClosed : s.isWriteClosed = true → s'.isWriteClosed = true ∧ admitted = []
  nothing : admitted = [] → h.held = []
  held : ∀ buffer ∈ h.held, buffer ≠ []
  shut : s.Shut → s'.Shut

theorem queued_push (h : QueueSound s) (b : QueuedBuffer) : (s.push b).queued = s.queued ++ b.bytes := by
  show unwritten (s.out ++ [b]) s.outOffset = unwritten s.out s.outOffset ++ b.bytes
  have hoff := h.offset
  cases hout : s.out with
  | nil =>
    rw [hout] at hoff
    rw [hoff, nil_append, unwritten, unwritten, flatMap_nil, append_nil, drop_zero, nil_append]
  | cons front rest =>
    rw [cons_append, unwritten, unwritten, flatMap_append, flatMap_singleton, append_assoc]

theorem queueSound_push (h : QueueSound s) (hb : 0 < b.len) : QueueSound (s.push b) := by
  constructor
  · exact forall_mem_append.mpr ⟨h.nonempty, forall_mem_singleton.mpr hb⟩
  · show OffsetWithin (s.out ++ [b]) s.outOffset
    have hoff := h.offset
    cases hout : s.out with
    | nil =>
      rw [hout] at hoff
      rw [hoff]
      exact hb
    | cons front rest =>
      rw [hout] at hoff
      exact hoff

theorem isWriteClosed_of_writeClosed (h : s.writeClosed = true) : s.isWriteClosed = true := by
  simp only [isWriteClosed, h, Bool.true_or]

/-- Nothing is admitted, and the queue stays as it is. -/
theorem Admits.keep (h : Writes s s' []) (hheld : r.held = []) : Admits s [] r s' := by
  have hbs : s'.queued = s.queued := h.bytes
  refine ⟨h.queue, ?_, fun _ => ⟨hbs, ?_⟩, fun hcl => ⟨h.isWriteClosed hcl, rfl⟩, fun _ => hheld,
    fun b hb => (nomatch hheld ▸ hb), h.shut⟩
  · rw [hbs, hheld]
    rfl
  · rw [hheld]
    rfl

/-- A buffer goes to the end of a queue that has room. -/
theorem admits_push (h : QueueSound s) (hopen : ¬s.isWriteClosed = true) (hb : 0 < b.len)
    (hroom : s.out.length < outQueuePackets) : Admits s b.bytes ⟨some (s.push b), [], [], [], []⟩ (s.push b) :=
  ⟨queueSound_push h hb, by rw [flatten_nil, append_nil, queued_push h],
    fun hfull => absurd hroom (Nat.not_lt_of_le hfull), fun hcl => absurd hcl hopen, fun _ => rfl,
    by simp, fun _ hshut => absurd (isWriteClosed_of_writeClosed hshut) hopen⟩

/-- A buffer that does not fit is held back. -/
theorem admits_hold (h : QueueSound s) (hopen : ¬s.isWriteClosed = true)
    (hne : buffer ≠ []) : Admits s buffer ⟨some s, [buffer], [], [], []⟩ s :=
  ⟨h, by rw [flatten_singleton], fun _ => ⟨rfl, flatten_singleton⟩, fun hcl => absurd hcl hopen,
    fun hnil => absurd hnil hne, fun b hb => mem_singleton.mp hb ▸ hne, id⟩

theorem Admits.of_same {admitted : Bytes} (hout : s₁.out = s.out)
    (hoff : s₁.outOffset = s.outOffset) (hcl : s₁.isWriteClosed = s.isWriteClosed)
    (hshut : s₁.writeClosed = s.writeClosed) (h : Admits s₁ admitted r s') : Admits s admitted r s' := by
  have hq : s₁.queued = s.queued := by rw [SocketIo.queued, SocketIo.queued, hout, hoff]
  obtain ⟨h₁, h₂, h₃, h₄, h₅, h₆, h₇⟩ := h
  rw [hq] at h₂ h₃
  rw [hout] at h₃
  rw [hcl] at h₄
  rw [Shut, hout, hshut] at h₇
  exact ⟨h₁, h₂, h₃, h₄, h₅, h₆, h₇⟩

theorem writes_peerHalfClose (h : QueueSound s) (hs' : (peerHalfClose (some s)).socket = some s') :
    Writes s s' [] ∧ (peerHalfClose (some s)).held = [] := by
  unfold peerHalfClose at hs' ⊢
  dsimp only at hs' ⊢
  by_cases hdr : (s.out.isEmpty && !s.writeClosed) = true
  · rw [if_pos hdr] at hs' ⊢
    cases hs'
    rw [Bool.and_eq_true, List.isEmpty_iff] at hdr
    refine ⟨.of_queue h rfl rfl (fun _ => ?_) fun _ => .inr hdr.1, rfl⟩
    simp only [isWriteClosed, Bool.true_or]
  rw [if_neg hdr] at hs' ⊢
  cases hs'
  refine ⟨.of_queue h rfl rfl (fun _ => ?_) .inl, rfl⟩
  simp only [isWriteClosed, Bool.or_true]

theorem writes_peerClosed (h : QueueSound s)
    (hs' : (peerClosed role socketId (some s)).socket = some s') : Writes s s' [] := by
  simp only [peerClosed] at hs'
  split at hs'
  · cases hs'
  · cases hs'
    refine .of_queue h rfl rfl (fun _ => ?_) .inl
    simp only [isWriteClosed, Bool.or_true, Bool.true_or]

theorem admits_admission (h : QueueSound s) (hne : buffer ≠ [])
    (hadm : Admission s buffer r) (hs' : r.socket = some s') : Admits s (if s.isWriteClosed then [] else buffer) r s' := by
  cases hadm with
  | closed hcl =>
    cases hs'
    rw [if_pos hcl]
    exact .keep (.refl h) rfl
  | queued hopen b hb hroom =>
    cases hs'
    subst hb
    rw [if_neg (Bool.eq_false_iff.mp hopen)]
    exact admits_push h (Bool.eq_false_iff.mp hopen) (b.length_bytes ▸ length_pos_iff.mpr hne) hroom
  | held hopen =>
    cases hs'
    rw [if_neg (Bool.eq_false_iff.mp hopen)]
    exact admits_hold h (Bool.eq_false_iff.mp hopen) hne

theorem admittedBuffer_open {d : PortForwardData} (hopen : d.Open role)
    (hlim : ¬maxDataPacket < (d.buffer.getD []).length) :
    admittedBuffer role (some s) d = if s.isWriteClosed then [] else d.buffer.getD [] := by
  unfold admittedBuffer
  simp only [hopen.error, hopen.halfClose, hopen.closed, hlim, isSome_none, Bool.or_self, Bool.false_eq_true, if_false,
    any_some]
  split <;> simp_all

/-- **What is admitted goes to the end of the queue or is held back.** -/
theorem admits_handleData (header : Option Bytes) (h : QueueSound s) (d : PortForwardData) :
    ∀ s', (handleData role socketId header (some s) d).socket = some s' →
      Admits s (admittedBuffer role (some s) d) (handleData role socketId header (some s) d) s' := by
  obtain ⟨s₁, hs₁, hcases⟩ := handleData_cases role socketId header s d
  obtain ⟨_, hsame, hout, hoff, hcl, hshut⟩ := applyWindow_some s (decodeWindow d.window)
  cases hs₁.symm.trans hsame
  have h₁ : QueueSound s₁ := ⟨hout ▸ h.nonempty, by rw [hout, hoff]; exact h.offset⟩
  generalize handleData role socketId header (some s) d = r at hcases ⊢
  intro s' hs'
  refine .of_same hout hoff hcl hshut ?_
  cases hcases with
  | dropped => cases hs'
  | halfClosed _ hhalf =>
    obtain ⟨hwr, hheld⟩ := writes_peerHalfClose h₁ hs'
    rw [admittedBuffer, hhalf, Bool.or_true, Bool.true_or, if_pos rfl]
    exact .keep hwr hheld
  | closed _ hclosed =>
    rw [admittedBuffer, hclosed, Bool.or_true, if_pos rfl]
    exact .keep (writes_peerClosed role socketId h₁ hs') rfl
  | empty hopen hemp =>
    cases hs'
    rw [admittedBuffer_open role hopen (by simp [hemp]), hemp, ite_self]
    exact .keep (.refl h₁) rfl
  | admitted hopen hne hlim hadm =>
    rw [admittedBuffer_open role hopen hlim, ← hcl]
    exact admits_admission h₁ hne hadm hs'

/-- Nothing is written before the next flush, and only data is held back. -/
theorem written_held_handleData (header : Option Bytes) (socket : Option SocketIo) (d : PortForwardData) :
    (handleData role socketId header socket d).written = [] ∧
      ∀ buffer ∈ (handleData role socketId header socket d).held, buffer ≠ [] := by
  cases socket with
  | none =>
    rw [handleData_none]
    exact ⟨rfl, by simp⟩
  | some s =>
    obtain ⟨s₁, -, hcases⟩ := handleData_cases role socketId header s d
    generalize handleData role socketId header (some s) d = r at hcases ⊢
    cases hcases with
    | halfClosed =>
      dsimp only [peerHalfClose]
      split <;> exact ⟨rfl, by simp⟩
    | admitted _ hne _ hadm => cases hadm <;> exact ⟨rfl, by simp [hne]⟩
    | _ => exact ⟨rfl, by simp [peerClosed]⟩

/-! ### The worker -/

/-- A socket of the worker. -/
abbrev SocketKey := Role × Int

/-- The sockets of a worker, with the history of their data. -/
structure Worker where
  sockets : SocketKey → Option SocketIo
  /-- Network data held back because the queue of its socket was full. -/
  held : List (SocketKey × Bytes)
  /-- What was admitted for a socket since it became active. -/
  admitted : SocketKey → Bytes
  /-- What was written to a socket since it became active. -/
  written : SocketKey → Bytes

/-- What a worker does next. -/
inductive WorkerEvent where
  | activate (key : SocketKey) (peerWindow : Option FlowWindow) (bindReplies : Option AgentSessionBindReplies)
      (halfCloseOnEof : Bool)
  | receive (d : PortForwardData) (header : Option Bytes)
  | service (key : SocketKey) (event : ReadySocket) (writes : List WriteResult) (turns : List ReadTurn)
  | flushQueuedWrite (key : SocketKey) (writes : List WriteResult)
  | flushDueCredits (key : SocketKey)
  | flushHeld
  /-- A failure of any call: `Engine::guard` ends with `finish(true)`. -/
  | stop

/-- The socket a packet is about. -/
def PortForwardData.key (d : PortForwardData) : SocketKey := (d.role, d.socketId.getD 0)

/-- The buffers held back for a socket. -/
def heldOf (key : SocketKey) (held : List (SocketKey × Bytes)) : List Bytes :=
  (held.filter fun entry => entry.1 = key).map Prod.snd

def retryHeld (sockets : SocketKey → Option SocketIo) (held : List (SocketKey × Bytes)) :
    (SocketKey → Option SocketIo) × List (SocketKey × Bytes) :=
  flushHeld (· ·) (fun sockets key s => update sockets key (some s)) sockets held

namespace Worker

def start : Worker := ⟨fun _ => none, [], fun _ => [], fun _ => []⟩

def handle (w : Worker) (key : SocketKey) (h : Handled) : Worker :=
  { w with
    sockets := update w.sockets key h.socket
    held := w.held ++ h.held.map fun buffer => (key, buffer)
    written := update w.written key (w.written key ++ h.written) }

def apply (w : Worker) : WorkerEvent → Worker
  | .activate key peerWindow bindReplies halfCloseOnEof =>
    let s := { SocketIo.new key.1 key.2 peerWindow bindReplies with halfCloseOnEof := halfCloseOnEof }
    { w with
      sockets := update w.sockets key (some s)
      admitted := update w.admitted key []
      written := update w.written key [] }
  | .receive d header =>
    let h := handleData d.key.1 d.key.2 header (w.sockets d.key) d
    { w.handle d.key h with
      admitted := update w.admitted d.key
        (w.admitted d.key ++ admittedBuffer d.key.1 (w.sockets d.key) d) }
  | .service key event writes turns => w.handle key (serviceEvent key.1 key.2 (w.sockets key) event writes turns)
  | .flushQueuedWrite key writes => w.handle key (EternalTerminal.flushQueuedWrite key.1 key.2 (w.sockets key) writes)
  | .flushDueCredits key => w.handle key (EternalTerminal.flushDueCredits key.1 key.2 (w.sockets key))
  | .flushHeld =>
    let r := retryHeld w.sockets w.held
    { w with sockets := r.1, held := r.2 }
  -- `stop_sockets(true)`
  | .stop => { w with sockets := fun _ => none, held := [] }

def heldFor (w : Worker) (key : SocketKey) : List Bytes := heldOf key w.held

/-- A buffer is admitted for a socket that has buffers held back only when its queue is full, and a socket
becomes active when nothing is held back for it. -/
def InOrder (w : Worker) : WorkerEvent → Prop
  | .receive d _ =>
    d.buffer = none ∨ w.heldFor d.key = [] ∨
      ((w.sockets d.key).all fun s => decide (outQueuePackets ≤ s.out.length)) = true
  | .activate key _ _ _ => w.heldFor key = []
  | _ => True

instance (w : Worker) (e : WorkerEvent) : Decidable (w.InOrder e) := by
  cases e <;> unfold InOrder <;> infer_instance

def InOrderStep (w w' : Worker) : Prop := ∃ e, w.InOrder e ∧ w' = w.apply e

end Worker
variable {held : List Bytes} {written admitted : Bytes}

/-! ### The order in the worker -/

/-- What was written, what is queued and what is held back make up what was admitted.  A write side that is
closed drops what is held back. -/
structure Carries (s : SocketIo) (written : Bytes) (held : List Bytes) (admitted : Bytes) : Prop where
  queue : QueueSound s
  bytes : ∃ rest, written ++ s.queued ++ rest = admitted ∧ (s.isWriteClosed = false → rest = held.flatten)

theorem Carries.writes
    (h : Carries s written held admitted) (hw : Writes s s' written') : Carries s' (written ++ written') held admitted := by
  obtain ⟨-, rest, hbs, hrest⟩ := h
  refine ⟨hw.queue, rest, ?_, fun hopen => hrest ?_⟩
  · rw [append_assoc written, hw.bytes]
    exact hbs
  · by_contra hcl
    rw [Bool.not_eq_false] at hcl
    exact nomatch (hopen.symm.trans (hw.isWriteClosed hcl))

theorem Carries.admits {arrived : Bytes} (h : Carries s written held admitted) (ha : Admits s arrived r s')
    (horder : arrived = [] ∨ held = [] ∨ outQueuePackets ≤ s.out.length) :
    Carries s' written (held ++ r.held) (admitted ++ arrived) := by
  obtain ⟨-, rest, hbs, hrest⟩ := h
  obtain ⟨hq, hadm, hfull, hcl, hno, -, -⟩ := ha
  refine ⟨hq, ?_⟩
  by_cases hopen : s.isWriteClosed = true
  · obtain ⟨hcl', harr⟩ := hcl hopen
    have hheld := hno harr
    rw [hheld, harr, flatten_nil, append_nil, append_nil] at hadm
    refine ⟨rest, ?_, fun hopen' => nomatch (hopen'.symm.trans hcl')⟩
    rw [hadm, harr, append_nil]
    exact hbs
  · rw [Bool.not_eq_true] at hopen
    refine ⟨(held ++ r.held).flatten, ?_, fun _ => rfl⟩
    rw [hrest hopen] at hbs
    rw [flatten_append, ← hbs]
    rcases horder with harr | hheld | hroom
    · have hheld := hno harr
      rw [hheld, harr, flatten_nil, append_nil, append_nil] at hadm
      rw [hadm, hheld, harr, flatten_nil, append_nil, append_nil]
    · rw [hheld, flatten_nil, nil_append, append_nil, append_assoc, hadm, append_assoc]
    · obtain ⟨hsame, hheld⟩ := hfull hroom
      rw [hsame, hheld]
      simp only [append_assoc]

theorem heldOf_append (key : SocketKey) (held held' : List (SocketKey × Bytes)) :
    heldOf key (held ++ held') = heldOf key held ++ heldOf key held' := by
  rw [heldOf, filter_append, map_append]
  rfl

theorem heldOf_cons_self (key : SocketKey) (buffer : Bytes) (held : List (SocketKey × Bytes)) :
    heldOf key ((key, buffer) :: held) = buffer :: heldOf key held := by
  rw [heldOf, filter_cons_of_pos (by simp), map_cons]
  rfl

theorem heldOf_cons_ne {key : SocketKey} (h : key ≠ key') (buffer : Bytes) (held : List (SocketKey × Bytes)) :
    heldOf key' ((key, buffer) :: held) = heldOf key' held := by
  rw [heldOf, filter_cons_of_neg (by simp [h])]
  rfl

theorem heldOf_map_self (key : SocketKey) (buffers : List Bytes) :
    heldOf key (buffers.map fun buffer => (key, buffer)) = buffers := by
  induction buffers with
  | nil => rfl
  | cons buffer buffers ih => rw [map_cons, heldOf_cons_self, ih]

theorem heldOf_map_ne {key : SocketKey} (h : key ≠ key') (buffers : List Bytes) :
    heldOf key' (buffers.map fun buffer => (key, buffer)) = [] := by
  induction buffers with
  | nil => rfl
  | cons buffer buffers ih => rw [map_cons, heldOf_cons_ne h, ih]

/-- A buffer that fits goes from the front of what is held back to the end of the queue. -/
theorem Carries.push
    (h : Carries s written (buffer :: held) admitted) (hopen : ¬s.isWriteClosed = true) (hne : buffer ≠ []) :
    Carries (s.push (wholeBuffer buffer)) written held admitted := by
  obtain ⟨hq, rest, hbs, hrest⟩ := h
  rw [hrest (Bool.eq_false_iff.mpr hopen), flatten_cons] at hbs
  refine ⟨queueSound_push hq (length_pos_iff.mpr hne), held.flatten, ?_, fun _ => rfl⟩
  rw [queued_push hq, bytes_wholeBuffer, ← hbs]
  simp only [append_assoc]

/-- A write side that is closed drops what is held back. -/
theorem Carries.dropHeld {held' : List Bytes}
    (h : Carries s written held admitted) (hcl : s.isWriteClosed = true) : Carries s written held' admitted := by
  obtain ⟨hq, rest, hbs, -⟩ := h
  exact ⟨hq, rest, hbs, fun hopen => nomatch (hopen.symm.trans hcl)⟩

/-! ### Accounts of all sockets -/

/-- An account of a socket that stands what is written to it and the retry of what is held back for it. -/
structure Stands (P : SocketIo → Bytes → List Bytes → Bytes → Prop) : Prop where
  queue : ∀ {s written held admitted}, P s written held admitted → QueueSound s
  writes : ∀ {s s' written written' held admitted}, P s written held admitted → Writes s s' written' →
    P s' (written ++ written') held admitted
  push : ∀ {s written buffer held admitted}, P s written (buffer :: held) admitted → ¬s.isWriteClosed = true →
    buffer ≠ [] → P (s.push (wholeBuffer buffer)) written held admitted
  dropHeld : ∀ {s written held held' admitted}, P s written held admitted → s.isWriteClosed = true →
    P s written held' admitted

theorem stands_carries : Stands Carries :=
  ⟨fun h => h.queue, Carries.writes, Carries.push, Carries.dropHeld⟩

/-- The account of every socket holds, and only data is held back. -/
structure AllKeep (P : SocketIo → Bytes → List Bytes → Bytes → Prop) (sockets : SocketKey → Option SocketIo)
    (held : List (SocketKey × Bytes)) (written admitted : SocketKey → Bytes) : Prop where
  sockets : ∀ key s, sockets key = some s → P s (written key) (heldOf key held) (admitted key)
  nonempty : ∀ entry ∈ held, entry.2 ≠ []

section
variable {P : SocketIo → Bytes → List Bytes → Bytes → Prop}

theorem allKeep_retryHeld (hP : Stands P) {sockets : SocketKey → Option SocketIo} {held : List (SocketKey × Bytes)}
    {written admitted : SocketKey → Bytes} (h : AllKeep P sockets held written admitted) :
    AllKeep P (retryHeld sockets held).1 (retryHeld sockets held).2 written admitted := by
  unfold retryHeld
  induction held generalizing sockets with
  | nil => exact h
  | cons entry held ih =>
    obtain ⟨key, buffer⟩ := entry
    have hne : buffer ≠ [] := h.nonempty _ mem_cons_self
    have hrest : ∀ entry ∈ held, entry.2 ≠ [] := fun entry he => h.nonempty entry (mem_cons_of_mem _ he)
    have hother : ∀ {key' s'}, key ≠ key' → sockets key' = some s' →
        P s' (written key') (heldOf key' held) (admitted key') := fun hkey hs' => by
      have hkeep := h.sockets _ _ hs'
      rwa [heldOf_cons_ne hkey] at hkeep
    rw [flushHeld]
    split
    next hnone =>
      refine ih ⟨fun key' s' hs' => ?_, hrest⟩
      refine hother (fun hkey => ?_) hs'
      subst hkey
      cases hnone.symm.trans hs'
    next s hs =>
      have hkeep := h.sockets key s hs
      rw [heldOf_cons_self] at hkeep
      split
      next hcl =>
        refine ih ⟨fun key' s' hs' => ?_, hrest⟩
        by_cases hkey : key = key'
        · subst hkey
          obtain rfl : s = s' := Option.some.inj (hs.symm.trans hs')
          exact hP.dropHeld hkeep hcl
        · exact hother hkey hs'
      next hopen =>
        split
        next s₁ hq =>
          obtain ⟨rfl, -⟩ := queueWrite_eq_some hq
          refine ih ⟨fun key' s' hs' => ?_, hrest⟩
          by_cases hkey : key = key'
          · subst hkey
            rw [update_self] at hs'
            cases hs'
            exact hP.push hkeep hopen hne
          · rw [update_of_ne (Ne.symm hkey)] at hs'
            exact hother hkey hs'
        · exact h

namespace Worker
variable {w : Worker}

def Keeps (P : SocketIo → Bytes → List Bytes → Bytes → Prop) (w : Worker) : Prop :=
  AllKeep P w.sockets w.held w.written w.admitted

theorem keeps_start : start.Keeps P :=
  ⟨fun _ _ hs => absurd hs (by simp [start]), fun _ he => (nomatch he)⟩

/-- An operation on one socket that keeps its account, and leaves the others alone. -/
theorem Keeps.handle (h : w.Keeps P) (key : SocketKey) (r : Handled) (arrived : Bytes)
    (hnone : w.sockets key = none → r.socket = none) (hheld : ∀ buffer ∈ r.held, buffer ≠ [])
    (hsome : ∀ s s', w.sockets key = some s → r.socket = some s' →
      P s (w.written key) (w.heldFor key) (w.admitted key) →
        P s' (w.written key ++ r.written) (w.heldFor key ++ r.held) (w.admitted key ++ arrived)) :
    Keeps P { w.handle key r with admitted := update w.admitted key (w.admitted key ++ arrived) } := by
  refine ⟨fun key' s' hs' => ?_, forall_mem_append.mpr ⟨h.nonempty, forall_mem_map.mpr hheld⟩⟩
  dsimp only [Worker.handle] at hs' ⊢
  rw [heldOf_append]
  by_cases hkey : key = key'
  · subst hkey
    rw [update_self] at hs'
    rw [update_self, update_self, heldOf_map_self]
    cases hs : w.sockets key with
    | none => exact nomatch (hnone hs).symm.trans hs'
    | some s => exact hsome s s' hs hs' (h.sockets key s hs)
  · rw [update_of_ne (Ne.symm hkey)] at hs'
    rw [update_of_ne (Ne.symm hkey), update_of_ne (Ne.symm hkey), heldOf_map_ne hkey, append_nil]
    exact h.sockets key' s' hs'

theorem Keeps.flush (hP : Stands P) (h : w.Keeps P) (key : SocketKey) {r : Handled} (hr : Flushes (w.sockets key) r) :
    (w.handle key r).Keeps P := by
  have hhandle := h.handle key r [] (fun hnone => (hr.gone hnone).1) (by rw [hr.held]; simp)
    fun s s' hs hs' hkeep => by
      rw [hr.held, append_nil, append_nil]
      exact hP.writes hkeep (hr.writes s s' hs hs' (hP.queue hkeep))
  rw [append_nil, update_eq_self] at hhandle
  exact hhandle

/-- An event keeps the accounts if the account of a new socket holds, and that of one whose data arrives. -/
theorem Keeps.apply (hP : Stands P) (h : w.Keeps P) (e : WorkerEvent)
    (hnew : ∀ key peerWindow bindReplies halfCloseOnEof,
      e = .activate key peerWindow bindReplies halfCloseOnEof →
        P { SocketIo.new key.1 key.2 peerWindow bindReplies with halfCloseOnEof := halfCloseOnEof } [] (w.heldFor key) [])
    (hadm : ∀ d header s s' r, e = .receive d header → w.sockets d.key = some s →
      Admits s (admittedBuffer d.key.1 (some s) d) r s' → P s (w.written d.key) (w.heldFor d.key) (w.admitted d.key) →
        P s' (w.written d.key) (w.heldFor d.key ++ r.held) (w.admitted d.key ++ admittedBuffer d.key.1 (some s) d)) :
    (w.apply e).Keeps P := by
  cases e with
  | activate key peerWindow bindReplies halfCloseOnEof =>
    refine ⟨fun key' s' hs' => ?_, h.nonempty⟩
    dsimp only [Worker.apply] at hs' ⊢
    by_cases hkey : key = key'
    · subst hkey
      rw [update_self] at hs'
      cases hs'
      rw [update_self, update_self]
      exact hnew _ _ _ _ rfl
    · rw [update_of_ne (Ne.symm hkey)] at hs'
      rw [update_of_ne (Ne.symm hkey), update_of_ne (Ne.symm hkey)]
      exact h.sockets key' s' hs'
  | receive d header =>
    refine h.handle d.key _ _ (fun hnone => ?_) (written_held_handleData _ _ _ _ _).2 fun s s' hs hs' hkeep => ?_
    · rw [hnone, handleData_none]
    · rw [hs] at hs' ⊢
      rw [(written_held_handleData _ _ _ _ _).1, append_nil]
      exact hadm d header s s' _ rfl hs (admits_handleData d.key.1 d.key.2 header (hP.queue hkeep) d s' hs') hkeep
  | service key event writes turns => exact h.flush hP key (flushes_serviceEvent key.1 key.2 _ event writes turns)
  | flushQueuedWrite key writes => exact h.flush hP key (flushes_flushQueuedWrite key.1 key.2 _ writes)
  | flushDueCredits key => exact h.flush hP key (flushes_flushDueCredits key.1 key.2 _)
  | flushHeld => exact allKeep_retryHeld hP h
  | stop => exact ⟨fun _ _ hs => absurd hs (Option.some_ne_none _).symm, fun _ he => absurd he not_mem_nil⟩

theorem carry_step {w' : Worker} (h : w.Keeps Carries) (hstep : w.InOrderStep w') : w'.Keeps Carries := by
  obtain ⟨e, horder, rfl⟩ := hstep
  refine h.apply stands_carries e ?_ ?_
  · rintro key peerWindow bindReplies halfCloseOnEof rfl
    rw [show w.heldFor key = [] from horder]
    exact ⟨⟨fun _ hb => (nomatch hb), rfl⟩, [], rfl, fun _ => rfl⟩
  · rintro d header s s' r rfl hs hadm hcar
    refine hcar.admits hadm ?_
    rcases horder with hbuf | hheld | hfull
    · left
      unfold admittedBuffer
      rw [hbuf]
      simp only [getD_none, ite_self]
    · exact .inr (.inl hheld)
    · rw [hs] at hfull
      exact .inr (.inr (of_decide_eq_true hfull))

end Worker
end

/-- **What is written to an open socket is the front of what was admitted for it**, in every run in which no
buffer is admitted past one of the same socket that is held back. -/
theorem written_in_order {w : Worker} (hrun : ReflTransGen Worker.InOrderStep Worker.start w) {key : SocketKey}
    {s : SocketIo} (hs : w.sockets key = some s) : w.written key <+: w.admitted key := by
  have hcarry := reach_invariant hrun Worker.keeps_start fun _ _ => Worker.carry_step
  obtain ⟨-, rest, hbytes, -⟩ := hcarry.sockets key s hs
  exact ⟨s.queued ++ rest, by rw [← append_assoc]; exact hbytes⟩

/-- A packet with one byte for a destination. -/
def bytePacket (socketId : Int) (byte : UInt8) : PortForwardData × Option Bytes :=
  (sendData .source socketId [byte] false none, none)

/-- A destination whose queue fills up, with two buffers held back that are retried after the queue is drained. -/
def heldRun : List WorkerEvent :=
  .activate (.destination, 1) none none false :: List.replicate 130 (.receive (bytePacket 1 0).1 none) ++
    [.flushQueuedWrite (.destination, 1) (List.replicate 8 (.wrote 16)), .flushHeld,
      .flushQueuedWrite (.destination, 1) [.wrote 1]]

theorem written_in_order_held :
    let w := heldRun.foldl Worker.apply Worker.start
    w.written (.destination, 1) = List.replicate 129 0 ∧ w.written (.destination, 1) <+: w.admitted (.destination, 1) := by
  have hrun : ReflTransGen Worker.InOrderStep Worker.start (heldRun.foldl Worker.apply Worker.start) :=
    reach_of_events (fun _ e h => ⟨e, h, rfl⟩) heldRun (by decide +kernel : AllowedRun Worker.apply Worker.InOrder _ _)
  have hsome : ((heldRun.foldl Worker.apply Worker.start).sockets (.destination, 1)).isSome = true := by decide +kernel
  obtain ⟨s, hs⟩ := isSome_iff_exists.mp hsome
  exact ⟨by decide +kernel, written_in_order hrun hs⟩

/-! ### Batches -/

/-- How far the writes of a socket are. -/
def SocketIo.position (s : SocketIo) : Nat × Nat := (s.out.length, s.outOffset)

namespace Worker

def Step (w w' : Worker) : Prop := ∃ e, w' = w.apply e

/-- The sockets of a round of `flush_queued_writes`, in the order of the maps, with what their writes return: the
worker after it, and whether a write got anywhere. -/
def flushRound (w : Worker) : List (SocketKey × List WriteResult) → Worker × Bool
  | [] => (w, false)
  | (key, writes) :: round =>
    let progressed := (w.sockets key).any fun s => decide ((s.flushOut writes).2.1.position ≠ s.position)
    let r := (w.apply (.flushQueuedWrite key writes)).flushRound round
    (r.1, progressed || r.2)

def flushQueuedWrites (w : Worker) : List (List (SocketKey × List WriteResult)) → Worker
  | [] => w
  | round :: rounds =>
    let r := (w.apply .flushHeld).flushRound round
    if r.2 && !r.1.held.isEmpty then r.1.flushQueuedWrites rounds else r.1

/-- `Engine::receive` on data packets: all of them are handled before anything queued is flushed, and sources
that became active are read after it. -/
def receiveAll (w : Worker) (packets : List (PortForwardData × Option Bytes))
    (rounds : List (List (SocketKey × List WriteResult))) (fresh : List (SocketKey × List ReadTurn)) : Worker :=
  if packets.isEmpty then w
  else
    let handled := packets.foldl (fun w packet => w.apply (.receive packet.1 packet.2)) w
    fresh.foldl (fun w source => w.apply (.service source.1 ⟨true, false, false⟩ [] source.2))
      (handled.flushQueuedWrites rounds)

theorem reach_foldl {α : Type} (event : α → WorkerEvent) (l : List α) (w : Worker) :
    ReflTransGen Step w (l.foldl (fun w a => w.apply (event a)) w) := by
  induction l generalizing w with
  | nil => exact .refl
  | cons a l ih => exact .head ⟨event a, rfl⟩ (ih _)

theorem reach_flushRound (round : List (SocketKey × List WriteResult)) (w : Worker) :
    ReflTransGen Step w (w.flushRound round).1 := by
  induction round generalizing w with
  | nil => exact .refl
  | cons entry round ih => exact .head ⟨.flushQueuedWrite entry.1 entry.2, rfl⟩ (ih _)

theorem reach_flushQueuedWrites (rounds : List (List (SocketKey × List WriteResult))) (w : Worker) :
    ReflTransGen Step w (w.flushQueuedWrites rounds) := by
  induction rounds generalizing w with
  | nil => exact .refl
  | cons round rounds ih =>
    have hround : ReflTransGen Step w ((w.apply .flushHeld).flushRound round).1 :=
      .head ⟨.flushHeld, rfl⟩ (reach_flushRound round _)
    rw [flushQueuedWrites]
    split
    · exact hround.trans (ih _)
    · exact hround

/-- A batch is a run. -/
theorem reach_receiveAll (w : Worker) (packets : List (PortForwardData × Option Bytes))
    (rounds : List (List (SocketKey × List WriteResult))) (fresh : List (SocketKey × List ReadTurn)) :
    ReflTransGen Step w (w.receiveAll packets rounds fresh) := by
  unfold receiveAll
  split
  · exact .refl
  · exact ((reach_foldl (fun packet => .receive packet.1 packet.2) packets w).trans
      (reach_flushQueuedWrites rounds _)).trans (reach_foldl _ fresh _)

end Worker

/-- Two destinations of a peer without a window. -/
def twoDestinations : Worker :=
  (Worker.start.apply (.activate (.destination, 1) none none false)).apply (.activate (.destination, 2) none none false)

/-- Both queues fill up, and one more buffer for each is held back.  The local socket of the first takes
nothing, the second takes everything queued. -/
def bothHeld : Worker :=
  twoDestinations.receiveAll
    (List.replicate 129 (bytePacket 1 0) ++ List.replicate 128 (bytePacket 2 0) ++ [bytePacket 2 1])
    [[((.destination, 1), [.wouldBlock]), ((.destination, 2), List.replicate 8 (.wrote 16))],
      [((.destination, 1), [.wouldBlock])]] []

/-- **A buffer that is held back is overtaken**: the first socket's buffer blocks the retry of the second
socket's, whose queue then takes a later buffer. -/
theorem held_overtaken : ∃ w key, ReflTransGen Worker.Step Worker.start w ∧ (w.sockets key).isSome = true ∧
    ¬w.written key <+: w.admitted key := by
  refine ⟨bothHeld.receiveAll [bytePacket 2 2] [[((.destination, 2), [.wrote 1])]] [], (.destination, 2), ?_, ?_⟩
  · have hstart : ReflTransGen Worker.Step Worker.start twoDestinations :=
      .tail (.single ⟨_, rfl⟩) ⟨_, rfl⟩
    exact (hstart.trans (Worker.reach_receiveAll _ _ _ _)).trans (Worker.reach_receiveAll _ _ _ _)
  · decide +kernel

end EternalTerminal
