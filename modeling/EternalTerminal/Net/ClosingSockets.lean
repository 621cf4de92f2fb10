import EternalTerminal.Net.ForwardWorker

/-!
# Net — what a close leaves in the queue

When the peer closes a socket, or its own half of it, the worker writes what is queued for the socket before it drops
the socket or shuts its write side down.  What the worker holds back for the socket at that time is dropped: a socket
that is closing takes nothing from the held list.

Main results: `close_writes_queue`, `close_loses_held`.
-/

namespace EternalTerminal
open SocketIo List Function Relation
variable {s s' : SocketIo}

/-! ### Operations -/

theorem queued_of_empty (h : s.out = []) : s.queued = [] := by
  rw [SocketIo.queued, h]
  rfl

theorem written_of_empty {written : Bytes} (h : Writes s s' written) (hemp : s'.out = []) : written = s.queued := by
  rw [← h.bytes, queued_of_empty hemp, append_nil]

/-- **A socket is dropped without an error only when its queue is written.** -/
theorem serviceEvent_dropped {key : SocketKey} {event : ReadySocket} {writes : List WriteResult} {turns : List ReadTurn}
    (h : QueueSound s) (hnone : (serviceEvent key.1 key.2 (some s) event writes turns).socket = none)
    (hok : ¬(serviceEvent key.1 key.2 (some s) event writes turns).Reports) :
    (serviceEvent key.1 key.2 (some s) event writes turns).written = s.queued := by
  have hwr := writes_serviceSocket h event writes turns
  have hdrop := @serviceSocket_drop s event writes turns
  unfold serviceEvent at hnone hok ⊢
  dsimp only at hnone hok ⊢
  generalize s.serviceSocket event writes turns = result at hwr hdrop hnone hok ⊢
  obtain ⟨verdict, s₁, emitted, written⟩ := result
  cases verdict with
  | keep => cases hnone
  | drop => exact written_of_empty hwr ((hdrop rfl).resolve_left hok)
  | eof =>
    refine written_of_empty hwr ?_
    unfold readClosed at hnone
    dsimp only at hnone
    split at hnone
    · cases hnone
    split at hnone
    · cases hnone
    dsimp only at hnone
    split at hnone
    next hemp => exact List.isEmpty_iff.mp hemp
    · cases hnone

theorem flushQueuedWrite_dropped {key : SocketKey} {writes : List WriteResult} (h : QueueSound s)
    (hnone : (flushQueuedWrite key.1 key.2 (some s) writes).socket = none)
    (hok : ¬(flushQueuedWrite key.1 key.2 (some s) writes).Reports) :
    (flushQueuedWrite key.1 key.2 (some s) writes).written = s.queued := by
  have hwr := writes_flushOut h writes
  unfold flushQueuedWrite at hnone hok ⊢
  dsimp only at hnone hok ⊢
  split at hnone
  · cases hnone
  next hq =>
    rw [if_neg hq] at hok ⊢
    generalize s.flushOut writes = flushed at hwr hnone hok ⊢
    obtain ⟨result, s₁, written⟩ := flushed
    cases result with
    | error error => exact absurd ⟨_, mem_singleton_self _, rfl⟩ hok
    | ok _ =>
      have htak : (if s₁.out.isEmpty && s₁.creditDue then s₁.takeCredit else (none, s₁)).2.out = s₁.out := by
        unfold takeCredit
        split
        · split <;> rfl
        · rfl
      dsimp only at hwr hnone hok ⊢
      generalize (if s₁.out.isEmpty && s₁.creditDue then s₁.takeCredit else (none, s₁)) = taken at htak hnone ⊢
      split at hnone
      next hdr =>
        rw [if_pos hdr]
        rw [Bool.and_eq_true, List.isEmpty_iff] at hdr
        exact written_of_empty hwr (htak ▸ hdr.1)
      · cases hnone

/-! ### Every run -/

/-- A packet by which the peer closes a socket, or its own half of it. -/
structure PortForwardData.Closes (d : PortForwardData) : Prop where
  error : d.error = none
  closes : d.closed.getD false = true ∨ (d.role = .destination ∧ d.halfClose.getD false = true)

namespace Worker
variable {w w' : Worker} {key : SocketKey} {due : Bytes}

/-- In a socket that is tidy, a write side that is shut down has nothing queued. -/
abbrev Tidy (w : Worker) : Prop := w.Keeps fun s _ _ _ => QueueSound s ∧ s.Shut

theorem stands_tidy : Stands fun s _ _ _ => QueueSound s ∧ s.Shut where
  queue h := h.1
  writes h hwr := ⟨hwr.queue, hwr.shut h.2⟩
  push h hopen hne := ⟨queueSound_push h.1 (length_pos_iff.mpr hne),
    fun hshut => absurd (isWriteClosed_of_writeClosed hshut) hopen⟩
  dropHeld h _ := h

theorem tidy_apply (h : w.Tidy) (e : WorkerEvent) : (w.apply e).Tidy :=
  h.apply stands_tidy e (fun _ _ _ _ _ => ⟨⟨fun _ hb => (nomatch hb), rfl⟩, nofun⟩)
    fun _ _ _ _ _ _ _ hadm htidy => ⟨hadm.queue, hadm.shut htidy.2⟩

theorem tidy_of_reach (hrun : ReflTransGen Step start w) : w.Tidy :=
  reach_invariant hrun keeps_start fun _ _ h ⟨e, he⟩ => he ▸ tidy_apply h e

/-! ### After a close -/

/-- The socket is removed whatever is queued: the peer reports an error or sends more than the limit, the local socket
fails, a new socket takes the id, or the worker is stopped. -/
def Aborts (w : Worker) (key : SocketKey) : WorkerEvent → Prop
  | .activate key' _ _ _ => key' = key
  | .receive d _ => d.key = key ∧ (d.error.isSome = true ∨ maxDataPacket < (d.buffer.getD []).length)
  | .service key' event writes turns =>
    key' = key ∧ (serviceEvent key'.1 key'.2 (w.sockets key') event writes turns).Reports
  | .flushQueuedWrite key' writes =>
    key' = key ∧ (EternalTerminal.flushQueuedWrite key'.1 key'.2 (w.sockets key') writes).Reports
  | .stop => (w.sockets key).isSome = true
  | .flushDueCredits _ | .flushHeld => False

instance (w : Worker) (key : SocketKey) : (e : WorkerEvent) → Decidable (w.Aborts key e)
  | .activate .. | .receive .. | .service .. | .flushQueuedWrite .. | .flushDueCredits _ | .flushHeld | .stop => by
    dsimp only [Aborts]
    infer_instance

def OrderlyStep (key : SocketKey) (w w' : Worker) : Prop := ∃ e, ¬w.Aborts key e ∧ w' = w.apply e

/-- Of the bytes that are due, what is not written is queued, and it is written before the socket is dropped or its
write side is shut down. -/
structure Drains (w : Worker) (key : SocketKey) (due : Bytes) : Prop where
  dropped : w.sockets key = none → w.written key = due
  queued : ∀ s, w.sockets key = some s → w.written key ++ s.queued = due
  shut : ∀ s, w.sockets key = some s → s.writeClosed = true → w.written key = due

/-- The socket takes no more data. -/
def Closing (w : Worker) (key : SocketKey) (due : Bytes) : Prop :=
  match w.sockets key with
  | none => w.written key = due
  | some s => s.isWriteClosed = true ∧ w.written key ++ s.queued = due

theorem Closing.drains (h : w.Closing key due) (htidy : w.Tidy) : w.Drains key due := by
  unfold Closing at h
  refine ⟨fun hs => ?_, fun s hs => ?_, fun s hs hshut => ?_⟩
  · rwa [hs] at h
  · rw [hs] at h
    exact h.2
  · rw [hs] at h
    have hbs := h.2
    rwa [queued_of_empty ((htidy.sockets key s hs).2 hshut), append_nil] at hbs

/-- An operation on a closing socket. -/
theorem Closing.handle {key' : SocketKey} {r : Handled} (h : w.Closing key due)
    (hgone : w.sockets key' = none → r.socket = none ∧ r.written = [])
    (hnone : key' = key → ∀ s, w.sockets key' = some s → r.socket = none → r.written = s.queued)
    (hsome : ∀ s s', w.sockets key' = some s → s.isWriteClosed = true → r.socket = some s' →
      s'.isWriteClosed = true ∧ r.written ++ s'.queued = s.queued) : (w.handle key' r).Closing key due := by
  unfold Closing at h ⊢
  dsimp only [Worker.handle]
  by_cases hkey : key = key'
  · subst hkey
    rw [update_self, update_self]
    cases hs : w.sockets key with
    | none =>
      obtain ⟨hsock, hwr⟩ := hgone hs
      rw [hs] at h
      simpa only [hsock, hwr, append_nil] using h
    | some s =>
      rw [hs] at h
      obtain ⟨hcl, hbs⟩ := h
      cases hs' : r.socket with
      | none => rwa [← hnone rfl s hs hs'] at hbs
      | some s' =>
        obtain ⟨hcl', hbs'⟩ := hsome s s' hs hcl hs'
        exact ⟨hcl', by rw [append_assoc, hbs', hbs]⟩
  · rw [update_of_ne hkey, update_of_ne hkey]
    exact h

theorem retryHeld_closed {sockets : SocketKey → Option SocketIo}
    (h : ∀ s, sockets key = some s → s.isWriteClosed = true) (held : List (SocketKey × Bytes)) :
    (retryHeld sockets held).1 key = sockets key := by
  refine flushHeld_keeps (P := fun t : SocketKey → _ => t key = sockets key)
    (fun {t key' s s' _} hsame hs hopen _ => ?_) held rfl
  have hkey : key ≠ key' := by
    rintro rfl
    exact hopen (h s (hsame.symm.trans hs))
  rwa [update_of_ne hkey]

theorem closing_step (htidy : w.Tidy) (h : w.Closing key due) (hstep : w.OrderlyStep key w') : w'.Closing key due := by
  obtain ⟨e, horderly, rfl⟩ := hstep
  have hflush : ∀ {key' : SocketKey} {r : Handled}, Flushes (w.sockets key') r →
      (key' = key → ∀ s, w.sockets key' = some s → r.socket = none → r.written = s.queued) →
      (w.handle key' r).Closing key due := fun hr hnone => h.handle hr.gone hnone fun s s' hs hcl hs' => by
    have hwr := hr.writes s s' hs hs' (htidy.sockets _ s hs).1
    exact ⟨hwr.isWriteClosed hcl, hwr.bytes⟩
  cases e with
  | activate key' peerWindow bindReplies halfCloseOnEof =>
    have hkey : key ≠ key' := fun hkey => horderly hkey.symm
    unfold Closing at h ⊢
    dsimp only [Worker.apply]
    rw [update_of_ne hkey, update_of_ne hkey]
    exact h
  | receive d header =>
    refine Closing.handle (r := handleData d.key.1 d.key.2 header (w.sockets d.key) d) h
      (fun hnone => ?_) (fun hkey s hs hnone => ?_) fun s s' hs hcl hs' => ?_
    · rw [hnone, handleData_none]
      exact ⟨rfl, rfl⟩
    · rw [hs] at hnone
      have hlimits := not_or.mp (not_and.mp horderly hkey)
      have herr : d.error = none := by simpa using hlimits.1
      rw [(written_held_handleData _ _ _ _ _).1,
        queued_of_empty (handleData_dropped herr (Nat.le_of_not_lt hlimits.2) hnone).2]
    · rw [hs] at hs'
      rw [(written_held_handleData _ _ _ _ _).1]
      have hadm := admits_handleData d.key.1 d.key.2 header (htidy.sockets d.key s hs).1 d s' hs'
      obtain ⟨hcl', hno⟩ := hadm.isWriteClosed hcl
      have hbs := hadm.bytes
      rw [hno, hadm.nothing hno, flatten_nil, append_nil, append_nil] at hbs
      exact ⟨hcl', hbs⟩
  | service key' event writes turns =>
    refine hflush (flushes_serviceEvent _ _ _ _ _ _) fun hkey s hs hnone => ?_
    have hok := not_and.mp horderly hkey
    rw [hs] at hnone hok ⊢
    exact serviceEvent_dropped (htidy.sockets key' s hs).1 hnone hok
  | flushQueuedWrite key' writes =>
    refine hflush (flushes_flushQueuedWrite _ _ _ _) fun hkey s hs hnone => ?_
    have hok := not_and.mp horderly hkey
    rw [hs] at hnone hok ⊢
    exact flushQueuedWrite_dropped (htidy.sockets key' s hs).1 hnone hok
  | flushDueCredits key' =>
    refine hflush (flushes_flushDueCredits _ _ _) fun hkey s hs hnone => ?_
    rw [hs] at hnone
    unfold EternalTerminal.flushDueCredits at hnone
    dsimp only at hnone
    repeat' split at hnone
    all_goals cases hnone
  | flushHeld =>
    unfold Closing at h ⊢
    dsimp only [Worker.apply]
    rw [retryHeld_closed fun s hs => ?_]
    · exact h
    · rw [hs] at h
      exact h.1
  | stop =>
    have hnone : w.sockets key = none := Option.not_isSome_iff_eq_none.mp horderly
    unfold Closing at h ⊢
    rw [hnone] at h
    exact h

/-- A close or half-close drops an empty socket, and otherwise leaves its queue to be written. -/
theorem handleData_closes {d : PortForwardData} (hd : d.Closes) (header : Option Bytes) (s : SocketIo) :
    (handleData d.key.1 d.key.2 header (some s) d).socket.elim (s.queued = []) fun s' =>
      s'.isWriteClosed = true ∧ s'.queued = s.queued := by
  obtain ⟨s₁, hs₁, hcases⟩ := handleData_cases d.key.1 d.key.2 header s d
  obtain ⟨_, hsame, hout, hoff, -⟩ := applyWindow_some s (decodeWindow d.window)
  cases hs₁.symm.trans hsame
  have hq : s₁.queued = s.queued := by rw [SocketIo.queued, SocketIo.queued, hout, hoff]
  have hnot : ¬d.Open d.key.1 := by
    rintro ⟨-, hhalf, hopen⟩
    rcases hd.closes with hcl | ⟨hrole, hpeer⟩
    · cases hopen.symm.trans hcl
    · simp [PortForwardData.key, hrole, hpeer] at hhalf
  rw [← hq]
  generalize handleData d.key.1 d.key.2 header (some s) d = r at hcases ⊢
  cases hcases with
  | dropped hdrop => exact absurd (hdrop.resolve_left (· hd.error)).1 hnot
  | halfClosed =>
    unfold peerHalfClose
    dsimp only
    split
    · exact ⟨by simp only [isWriteClosed, Bool.true_or], rfl⟩
    · exact ⟨by simp only [isWriteClosed, Bool.or_true], rfl⟩
  | closed =>
    unfold peerClosed
    dsimp only
    split
    next hemp => exact queued_of_empty (List.isEmpty_iff.mp hemp)
    · exact ⟨by simp only [isWriteClosed, Bool.or_true, Bool.true_or], rfl⟩
  | empty hopen => exact absurd hopen hnot
  | admitted hopen => exact absurd hopen hnot

theorem closing_receive {d : PortForwardData} (hd : d.Closes) (header : Option Bytes) {s : SocketIo}
    (hs : w.sockets d.key = some s) :
    (w.apply (.receive d header)).Closing d.key (w.written d.key ++ s.queued) := by
  have hcloses := handleData_closes hd header s
  unfold Closing
  dsimp only [Worker.apply, Worker.handle]
  rw [update_self, update_self, hs, (written_held_handleData _ _ _ _ _).1, append_nil]
  cases hsock : (handleData d.key.1 d.key.2 header (some s) d).socket with
  | none =>
    rw [hsock, Option.elim_none] at hcloses
    rw [hcloses, append_nil]
  | some s' =>
    rw [hsock, Option.elim_some] at hcloses
    rw [← hcloses.2]
    exact ⟨hcloses.1, rfl⟩

end Worker

/-- **What is queued for a socket when the peer closes it is written** before the socket is dropped or its write side is
shut down, and nothing else is, in every run in which the socket is not aborted. -/
theorem close_writes_queue {w w' : Worker} (hrun : ReflTransGen Worker.Step Worker.start w) {d : PortForwardData}
    (hd : d.Closes) (header : Option Bytes) {s : SocketIo} (hs : w.sockets d.key = some s)
    (hafter : ReflTransGen (Worker.OrderlyStep d.key) (w.apply (.receive d header)) w') :
    w'.Drains d.key (w.written d.key ++ s.queued) := by
  have htidy := Worker.tidy_apply (Worker.tidy_of_reach hrun) (.receive d header)
  have hboth := reach_invariant (P := fun v => v.Tidy ∧ v.Closing d.key (w.written d.key ++ s.queued)) hafter
    ⟨htidy, Worker.closing_receive hd header hs⟩ fun v v' ⟨htidy, hclosing⟩ hstep => by
      obtain ⟨e, -, rfl⟩ := id hstep
      exact ⟨Worker.tidy_apply htidy e, Worker.closing_step htidy hclosing hstep⟩
  exact hboth.2.drains hboth.1

/-- The peer closes the destination. -/
def closePacket (socketId : Int) : PortForwardData := sendData .source socketId [] true none

/-- A destination with a full queue and one buffer held back. -/
def fullQueue : Worker :=
  (.activate (.destination, 1) none none false :: List.replicate 129 (.receive (bytePacket 1 0).1 none)).foldl Worker.apply
    Worker.start

/-- After the close the worker retries what it holds back, and the local socket takes everything that is queued. -/
def closedRun : List WorkerEvent :=
  [.flushHeld, .flushQueuedWrite (.destination, 1) (List.replicate 8 (.wrote 16))]

theorem reach_fullQueue : ReflTransGen Worker.Step Worker.start fullQueue := Worker.reach_foldl id _ Worker.start

theorem closedRun_orderly : ReflTransGen (Worker.OrderlyStep (closePacket 1).key)
    (fullQueue.apply (.receive (closePacket 1) none))
    (closedRun.foldl Worker.apply (fullQueue.apply (.receive (closePacket 1) none))) :=
  reach_of_events (fun _ e h => ⟨e, h, rfl⟩) closedRun
    (by decide +kernel : AllowedRun Worker.apply (fun w e => ¬w.Aborts (closePacket 1).key e) _ _)

theorem close_writes_queue_full :
    let w := closedRun.foldl Worker.apply (fullQueue.apply (.receive (closePacket 1) none))
    w.written (closePacket 1).key = List.replicate 128 0 ∧ w.Drains (closePacket 1).key (List.replicate 128 0) := by
  have hsome : ((fullQueue.sockets (closePacket 1).key).any fun s =>
      decide (fullQueue.written (closePacket 1).key ++ s.queued = List.replicate 128 0)) = true := by
    decide +kernel
  obtain ⟨s, hs, hdue⟩ := (Option.any_eq_true _ _).mp hsome
  have hdrains := close_writes_queue (d := closePacket 1) reach_fullQueue ⟨rfl, .inl rfl⟩ none hs closedRun_orderly
  rw [of_decide_eq_true hdue] at hdrains
  exact ⟨by decide +kernel, hdrains⟩

/-- **A buffer that is held back is lost**: it was admitted before the close, no local operation failed, and the socket
is dropped without it. -/
theorem close_loses_held : ReflTransGen Worker.Step Worker.start fullQueue ∧
    (fullQueue.heldFor (closePacket 1).key).flatten = [0] ∧
    ∃ w : Worker, ReflTransGen (Worker.OrderlyStep (closePacket 1).key)
        (fullQueue.apply (.receive (closePacket 1) none)) w ∧
      (w.sockets (closePacket 1).key).isNone = true ∧ (w.admitted (closePacket 1).key).length = 129 ∧
      (w.written (closePacket 1).key).length = 128 ∧ w.held = [] :=
  ⟨reach_fullQueue, by decide +kernel, _, closedRun_orderly, by decide +kernel⟩

end EternalTerminal
