import EternalTerminal.Net.SocksSplits
import EternalTerminal.Net.ForwardTables

/-!
# Net — the size of the data packets

A worker drops a socket for which more than `maxDataPacket` bytes arrive in one packet.  What a worker reads from
a socket is cut to its read buffer, and what follows the replies to session binds is part of one read.  The early
data of a SOCKS client is not cut: the handshake keeps what it can read after the request, and the response of the
destination sends all of it in one packet.

Main results: `data_packets_light_iff`, `early_data_drops_socket`.
-/

namespace EternalTerminal
open List

/-! ### Packets within the limit -/

namespace PortForwardData

/-- The buffer is within the limit of the receiving worker. -/
def Light (d : PortForwardData) : Prop := (d.buffer.getD []).length ≤ maxDataPacket

/-- No socket is dropped for a packet that neither reports an error nor closes. -/
def KeepsSocket (d : PortForwardData) : Prop :=
  d.error = none → d.closed.getD false = false →
    ∀ role socketId header s, (handleData role socketId header (some s) d).socket ≠ none

variable {d : PortForwardData}

theorem light_sendData {buffer : Bytes} (role : Role) (socketId : Int) (closed : Bool) (error : Option String)
    (h : buffer.length ≤ maxDataPacket) : (sendData role socketId buffer closed error).Light := by
  unfold Light sendData
  dsimp only
  split
  · exact Nat.zero_le _
  · exact h

theorem Light.keepsSocket (h : d.Light) : d.KeepsSocket := by
  intro herr hcl role socketId header s hnone
  exact nomatch (hcl.symm.trans (handleData_dropped herr h hnone).1)

end PortForwardData

open PortForwardData

/-! ### What an operation on a socket sends -/

/-- Everything sent is within the limit. -/
def Handled.Light (h : Handled) : Prop := ∀ d ∈ h.emitted ++ h.credits, d.Light

theorem light_of_nothing {h : Handled} (hem : h.emitted = []) (hcred : h.credits = []) : h.Light := by
  simp [Handled.Light, hem, hcred]

theorem light_peerClosed (role : Role) (socketId : Int) (socket : Option SocketIo) :
    (peerClosed role socketId socket).Light := by
  unfold peerClosed
  split <;> simp [Handled.Light, light_sendData]

theorem light_peerHalfClose (socket : Option SocketIo) : (peerHalfClose socket).Light := by
  unfold peerHalfClose
  split
  · exact light_of_nothing rfl rfl
  · split <;> exact light_of_nothing rfl rfl

theorem light_handleData (role : Role) (socketId : Int) (header : Option Bytes) (socket : Option SocketIo)
    (d : PortForwardData) : (handleData role socketId header socket d).Light := by
  cases socket with
  | none =>
    rw [handleData_none]
    exact light_of_nothing rfl rfl
  | some s =>
    obtain ⟨s₁, -, hcases⟩ := handleData_cases role socketId header s d
    generalize handleData role socketId header (some s) d = r at hcases ⊢
    cases hcases with
    | halfClosed => exact light_peerHalfClose _
    | closed => exact light_peerClosed role socketId _
    | admitted _ _ _ hadm => cases hadm <;> exact light_of_nothing rfl rfl
    | _ => exact light_of_nothing rfl rfl

theorem light_flushDueCredits (role : Role) (socketId : Int) (socket : Option SocketIo) :
    (flushDueCredits role socketId socket).Light := by
  unfold flushDueCredits
  repeat' split
  all_goals simp [Handled.Light, Light, sendCredit]

theorem light_flushQueuedWrite (role : Role) (socketId : Int) (socket : Option SocketIo) (writes : List WriteResult) :
    (flushQueuedWrite role socketId socket writes).Light := by
  have hcred : ∀ taken : Option (Int × Int),
      ∀ d ∈ taken.elim [] fun credit => [sendCredit role socketId credit.1 credit.2], d.Light := by
    intro taken
    cases taken <;> simp [Light, sendCredit]
  unfold flushQueuedWrite
  split
  · exact light_of_nothing rfl rfl
  split
  · exact light_of_nothing rfl rfl
  split
  · simp [Handled.Light, light_sendData]
  next s written heq =>
    dsimp only
    generalize (if s.out.isEmpty && s.creditDue then s.takeCredit else (none, s)) = taken
    split <;> exact hcred taken.1

/-! ### Reading -/

namespace SocketIo
variable {s s' : SocketIo} {scratch : Nat} {reads : List ReadResult} {buffer : Bytes} {split : Option (Nat × Nat)}

/-- A read returns no more than it may take. -/
theorem length_readLoop_le {limit : Nat}
    (h : s.readLoop limit scratch reads = (.ok (.data buffer), s')) : buffer.length ≤ limit := by
  obtain ⟨t, -, -, hread⟩ := s.readLoop_cases limit scratch reads
  rw [h] at hread
  cases hread with
  | data _ hle => exact hle

theorem readLimit_le (s : SocketIo) (scratch : Nat) : s.readLimit scratch ≤ scratch := by
  unfold readLimit
  split
  · exact Int.toNat_le.mpr (min_le_right _ _)
  · exact Nat.le_refl _

theorem length_readEncodedChunk_le
    (h : s.readEncodedChunk scratch reads = (.ok (.data buffer), s')) : buffer.length ≤ scratch := by
  unfold readEncodedChunk at h
  dsimp only at h
  split at h
  · cases h
  · exact (length_readLoop_le h).trans (readLimit_le s scratch)

/-- The second part of a split is a read length. -/
theorem pipelinedSplit_le (available : Option Nat) : (pipelinedSplit available).2 ≤ forwardReadLen := by
  unfold pipelinedSplit
  split
  · split
    · exact min_le_right _ _
    · exact Nat.le_refl _
  · exact Nat.le_refl _

theorem readLen_le (h : ∀ p ∈ split, p.2 ≤ forwardReadLen) : readLen split ≤ maxDataPacket := by
  have hlen : forwardReadLen ≤ maxDataPacket := by decide
  unfold readLen
  split
  · decide
  next bytes len =>
    split
    · exact (h (bytes, len) rfl).trans hlen
    · exact hlen

/-- **The packets of the read loop are within the limit**: the read length stays below it from turn to turn. -/
theorem light_readTurns (reads : Nat) (turns : List ReadTurn)
    (h : ∀ p ∈ split, p.2 ≤ forwardReadLen) : ∀ d ∈ (s.readTurns split reads turns).2.2, d.Light := by
  induction turns generalizing s split reads with
  | nil => simp [readTurns]
  | cons turn turns ih =>
    rw [readTurns]
    split
    · split
      next buffer s' hread =>
        have hdata := light_sendData s.role s.socketId false none
          ((length_readEncodedChunk_le hread).trans (readLen_le h))
        dsimp only
        split
        · simpa using hdata
        refine forall_mem_cons.mpr ⟨hdata, ih _ ?_⟩
        rintro p ⟨⟩
        split
        · split
          · exact pipelinedSplit_le _
          · exact Nat.le_refl _
        next bytes len => exact h (bytes, len) rfl
      · simp
      · simp
      · simp [light_sendData]
    · simp

theorem light_serviceSocket (s : SocketIo) (event : ReadySocket) (writes : List WriteResult) (turns : List ReadTurn) :
    ∀ d ∈ (s.serviceSocket event writes turns).2.2.1, d.Light := by
  have hturns : ∀ s : SocketIo,
      ∀ d ∈ (if event.readable then s.readTurns none 0 turns else (none, s, [])).2.2, d.Light := by
    intro s
    split
    · exact light_readTurns 0 turns nofun
    · simp
  unfold serviceSocket
  dsimp only
  split
  · simp [light_sendData]
  next s written hflu =>
    split
    · simp
    split
    · simp [light_sendData]
    have hsent := hturns (if s.out.isEmpty then s.shutdownDrained else s)
    split
    next hr => rwa [hr] at hsent
    next hr => rwa [hr] at hsent

end SocketIo

theorem light_serviceEvent (role : Role) (socketId : Int) (socket : Option SocketIo) (event : ReadySocket)
    (writes : List WriteResult) (turns : List ReadTurn) :
    (serviceEvent role socketId socket event writes turns).Light := by
  unfold serviceEvent
  split
  · exact light_of_nothing rfl rfl
  next s =>
    have hsent := s.light_serviceSocket event writes turns
    split
    next heq => simpa [Handled.Light, heq] using hsent
    next heq => simpa [Handled.Light, heq] using hsent
    next s' emitted written heq =>
      rw [heq] at hsent
      have hcl : ∀ d ∈ (readClosed role socketId (some s')).emitted, d.Light := by
        unfold readClosed
        dsimp only
        repeat' split
        all_goals simp [Light, sendHalfClose, sendData]
      have hcred : (readClosed role socketId (some s')).credits = [] := by
        unfold readClosed
        dsimp only
        repeat' split
        all_goals rfl
      simp only [Handled.Light, hcred, append_nil]
      exact forall_mem_append.mpr ⟨hsent, hcl⟩

/-! ### The worker -/

namespace ForwardMessage

def Light : ForwardMessage → Prop
  | .data d => d.Light
  | _ => True

end ForwardMessage

namespace ForwardTables
variable {t t' : ForwardTables}

/-- The messages an event sends. -/
def emittedBy (t : ForwardTables) (e : ForwardEvent) : List ForwardMessage := (t.run e).2.emitted.drop t.emitted.length

/-- The early data that a response sends is within the limit. -/
def EarlyFits (t : ForwardTables) : ForwardEvent → Prop
  | .packet world (.response (some response)) =>
    ∀ clientFd accept, response.clientfd = some clientFd → t.pending.lookup clientFd = some accept →
      response.error = none → (response.socketid.filter (0 < ·)).isSome → world.emission = none →
        accept.early.length ≤ maxDataPacket
  | _ => True

/-- From `t` to `t'` only messages with `P` were sent. -/
def Emits (P : ForwardMessage → Prop) (t t' : ForwardTables) : Prop :=
  ∃ messages, t'.emitted = t.emitted ++ messages ∧ ∀ m ∈ messages, P m

variable {P : ForwardMessage → Prop}

theorem Emits.of_eq (h : t'.emitted = t.emitted) : Emits P t t' := ⟨[], by rw [h, append_nil], by simp⟩

theorem emits_emit (world : ForwardWorld) {message : ForwardMessage} (h : P message) :
    Emits P t (t.emit world message).2 := by
  unfold emit
  split
  · exact .of_eq rfl
  · exact ⟨[message], rfl, by simpa using h⟩

@[simp] theorem emitted_setSocket (t : ForwardTables) (key : SocketKey) (socket : Option SocketIo) :
    (t.setSocket key socket).emitted = t.emitted := by
  unfold setSocket
  split <;> rfl

@[simp] theorem emitted_unpark (t : ForwardTables) (accept : PendingAccept) : (t.unpark accept).emitted = t.emitted := by
  unfold unpark
  split <;> rfl

theorem emitted_activate (t : ForwardTables) (world : ForwardWorld) (key : SocketKey) (window : Option FlowWindow)
    (replies : Option AgentSessionBindReplies) : (t.activate world key window replies).2.emitted = t.emitted := by
  unfold activate
  split
  · rfl
  · exact emitted_setSocket t key _

variable (hP : ∀ m : ForwardMessage, m.Light → P m)
include hP

theorem emits_handle {world : ForwardWorld} {key : SocketKey} {h : Handled} (hlight : h.Light) :
    Emits P t (t.handle world key h).2 := by
  unfold handle
  split
  · exact .of_eq rfl
  · exact ⟨(h.emitted ++ h.credits).map .data, rfl, forall_mem_map.mpr fun d hd => hP _ (hlight d hd)⟩

theorem emits_connected (world : ForwardWorld) (clientFd socketId : Int) (failure : Option IoError)
    (peerAdvertised : Option FlowWindow) : Emits P t (t.connected world clientFd socketId failure peerAdvertised).2 := by
  unfold connected
  dsimp only
  split
  · exact emits_emit (t := { t with connecting := _, pendingAgentBinds := _ }) world (hP _ trivial)
  split
  · exact emits_emit (t := { t with connecting := _, pendingAgentBinds := _ }) world (hP _ trivial)
  split
  next heq => exact .of_eq (congrArg (fun o => o.2.emitted) heq ▸ emitted_activate _ world _ _ _)
  next t₁ heq =>
    obtain ⟨messages, happ, hlight⟩ := emits_emit (t := t₁) world (hP (.response _) trivial)
    refine ⟨messages, happ.trans ?_, hlight⟩
    exact congrArg (· ++ messages) (congrArg (fun o => o.2.emitted) heq ▸ emitted_activate _ world _ _ _)

theorem emits_requestDestination (world : ForwardWorld) (request : PortForwardDestinationRequest) :
    Emits P t (t.requestDestination world request).2 := by
  unfold requestDestination
  split
  · exact .of_eq rfl
  dsimp only
  split
  · exact emits_connected hP world _ _ _ _
  split
  · exact emits_connected hP world _ _ _ _
  unfold allocateSocketId
  split
  next heq =>
    split at heq <;> cases heq
    exact .of_eq rfl
  next heq =>
    split at heq <;> cases heq
    split
    · exact emits_connected (t := { t with nextSocketId := _ }) hP world _ _ _ _
    · exact .of_eq rfl

omit hP in
/-- What a response sends for the accept it is attached to. -/
theorem emitted_attach (t : ForwardTables) (world : ForwardWorld) (socketId : Int) (accept : PendingAccept)
    (peerAdvertised : Option FlowWindow) :
    (t.attach world socketId accept peerAdvertised).2.emitted =
      t.emitted ++ if accept.early.isEmpty || world.emission.isSome then []
        else [.data (sendData .source socketId accept.early false none)] := by
  have hear : (t.sendEarly world socketId accept.early).2.emitted =
      t.emitted ++ if accept.early.isEmpty || world.emission.isSome then []
        else [.data (sendData .source socketId accept.early false none)] := by
    unfold sendEarly emit
    cases accept.early.isEmpty <;> cases world.emission <;> simp
  unfold attach
  rw [← hear]
  split
  next heq => rw [heq]
  next t₁ heq =>
    rw [heq]
    have hactivate := emitted_activate t₁ world (.source, socketId) peerAdvertised none
    split
    next hfailed => exact congrArg (fun o => o.2.emitted) hfailed ▸ hactivate
    next hact =>
      rw [← hactivate, hact]
      exact emitted_setSocket _ _ _

theorem emits_destinationResponse {world : ForwardWorld} {response : PortForwardDestinationResponse}
    (h : ∀ clientFd accept socketId, response.clientfd = some clientFd → t.pending.lookup clientFd = some accept →
      response.error = none → response.socketid.filter (0 < ·) = some socketId → world.emission = none →
        P (.data (sendData .source socketId accept.early false none))) :
    Emits P t (t.destinationResponse world response).2 := by
  unfold destinationResponse
  split
  · exact .of_eq rfl
  next clientFd hfd =>
    split
    · unfold rejectStaleDestination
      repeat' split
      · exact .of_eq rfl
      · exact .of_eq rfl
      · exact emits_emit world (hP _ (light_sendData _ _ _ _ (Nat.zero_le _)))
    next accept hpend =>
      dsimp only
      split
      · exact .of_eq (emitted_unpark _ accept)
      next herr =>
        split
        · exact .of_eq (emitted_unpark _ accept)
        next socketId hid =>
          refine ⟨_, emitted_attach _ world socketId accept _, ?_⟩
          split
          · simp
          next hsent =>
            have hem : world.emission = none := by simp_all
            have herr : response.error = none := by simpa using herr
            exact forall_mem_singleton.mpr (h clientFd accept socketId hfd hpend herr hid hem)

theorem emits_accepted (world : ForwardWorld) (clientFd : Int) (destination : SocketEndpoint) (accept : PendingAccept) :
    Emits P t (t.accepted world clientFd destination accept).2 := by
  unfold accepted
  split
  · exact .of_eq (emitted_unpark t accept)
  · exact emits_emit (t := { t with pending := _ }) world (hP _ trivial)

omit hP in
theorem emitted_flushHeld (t : ForwardTables) : t.flushHeld.emitted = t.emitted :=
  flushHeld_keeps (P := fun t' : ForwardTables => t'.emitted = t.emitted)
    (fun h _ _ _ => (emitted_setSocket _ _ _).trans h) _ rfl

omit hP in
theorem emitted_expireParked (expired : List Int) (t : ForwardTables) : (expired.foldl expire t).emitted = t.emitted := by
  induction expired generalizing t with
  | nil => rfl
  | cons clientFd expired ih =>
    refine (ih _).trans ?_
    unfold expire
    split
    · exact emitted_unpark _ _
    · rfl

/-- **An event sends the early data of a response, and otherwise only packets within the limit.** -/
theorem emits_run {e : ForwardEvent}
    (h : ∀ world response clientFd accept socketId, e = .packet world (.response (some response)) →
      response.clientfd = some clientFd → t.pending.lookup clientFd = some accept → response.error = none →
        response.socketid.filter (0 < ·) = some socketId → world.emission = none →
          P (.data (sendData .source socketId accept.early false none))) : Emits P t (t.run e).2 := by
  cases e with
  | accepted world clientFd destination early socksVersion halfCloseOnEof stdio now =>
    exact emits_accepted (t := { t with accepts := _ }) hP world clientFd destination _
  | connected world index failure =>
    show Emits P t (t.connectorReports world index failure).2
    unfold connectorReports
    split
    · exact .of_eq rfl
    · exact emits_connected (t := { t with connectors := _, pendingWindows := _ }) hP world _ _ _ _
  | packet world packet =>
    show Emits P t (t.handlePacket world packet).2
    unfold handlePacket
    split
    · exact .of_eq rfl
    · exact emits_requestDestination hP world _
    · exact .of_eq rfl
    · exact emits_destinationResponse hP fun _ _ _ => h world _ _ _ _ rfl
    · exact .of_eq rfl
    · exact emits_handle hP (light_handleData _ _ _ _ _)
    · exact .of_eq rfl
  | service world key event writes turns => exact emits_handle hP (light_serviceEvent _ _ _ event writes turns)
  | flushQueuedWrite world key writes => exact emits_handle hP (light_flushQueuedWrite _ _ _ writes)
  | flushDueCredits world key => exact emits_handle hP (light_flushDueCredits _ _ _)
  | flushHeld => exact .of_eq (emitted_flushHeld t)
  | expireParked now => exact .of_eq (emitted_expireParked (t.expired now) t)
  | setSshAgentSessionBinds path binds => exact .of_eq rfl
  | takeOver => exact .of_eq rfl
  | stop => exact .of_eq rfl

omit hP in
theorem emitted_run (t : ForwardTables) (e : ForwardEvent) : (t.run e).2.emitted = t.emitted ++ t.emittedBy e := by
  obtain ⟨messages, happ, -⟩ := emits_run (P := fun _ => True) (t := t) (e := e) (fun _ _ => trivial)
    fun _ _ _ _ _ _ _ _ _ _ _ => trivial
  rw [emittedBy, happ, drop_left]

omit hP in
/-- An event sends only packets that the peer takes exactly if no early data above the limit is due. -/
theorem light_emittedBy_iff (t : ForwardTables) (e : ForwardEvent) :
    (∀ d, .data d ∈ t.emittedBy e → d.Light ∧ d.KeepsSocket) ↔ t.EarlyFits e := by
  constructor
  · intro h
    unfold EarlyFits
    split
    next world response =>
      intro clientFd accept hfd hpend herr hid hem
      obtain ⟨socketId, hid⟩ := Option.isSome_iff_exists.mp hid
      by_cases hemp : accept.early = []
      · rw [hemp]
        exact Nat.zero_le _
      have hsent : t.emittedBy (.packet world (.response (some response))) =
          [.data (sendData .source socketId accept.early false none)] := by
        simp [emittedBy, run, handlePacket, destinationResponse, hfd, hpend, herr, hid, emitted_attach, hem, hemp]
      have hlight := (h _ (by rw [hsent]; exact mem_singleton_self _)).1
      simpa [Light, sendData, hemp] using hlight
    · trivial
  · intro h d hd
    obtain ⟨messages, happ, hlight⟩ := emits_run (P := ForwardMessage.Light) (t := t) (e := e) (fun _ => id) (by
      rintro world response clientFd accept socketId rfl hfd hpend herr hid hem
      have hear := h clientFd accept hfd hpend herr (by rw [hid]; rfl) hem
      exact light_sendData .source socketId false none hear)
    rw [emittedBy, happ, drop_left] at hd
    have hd : d.Light := hlight _ hd
    exact ⟨hd, hd.keepsSocket⟩

omit hP in
theorem emitted_apply {e : ForwardEvent} (h : t.apply e = some t') : t'.emitted = t.emitted ++ t.emittedBy e := by
  have hrun := emitted_run t e
  unfold apply at h
  split at h
  · cases h
  split at h
  next heq =>
    cases h
    rwa [heq] at hrun
  next heq =>
    cases h
    rwa [heq] at hrun

/-- Every response of a run finds early data within the limit. -/
def EarlyFitsAlong : ForwardTables → List ForwardEvent → Prop
  | _, [] => True
  | t, e :: es => t.EarlyFits e ∧ ∀ t', t.apply e = some t' → EarlyFitsAlong t' es

omit hP in
theorem light_exec_iff {es : List ForwardEvent} (h : execEvents apply t es = some t') :
    (∀ d, .data d ∈ t'.emitted → d.Light ∧ d.KeepsSocket) ↔
      (∀ d, .data d ∈ t.emitted → d.Light ∧ d.KeepsSocket) ∧ EarlyFitsAlong t es := by
  induction es generalizing t with
  | nil =>
    cases h
    rw [EarlyFitsAlong, and_true]
  | cons e es ih =>
    obtain ⟨t₁, hstep, hrest⟩ := Option.bind_eq_some_iff.mp h
    have hem := emitted_apply hstep
    rw [ih hrest, EarlyFitsAlong, ← light_emittedBy_iff, hem]
    simp only [hstep, Option.some.injEq, forall_eq', mem_append]
    rw [← and_assoc]
    exact and_congr_left' ⟨fun h => ⟨fun d hd => h d (.inl hd), fun d hd => h d (.inr hd)⟩,
      fun h d hd => hd.elim (h.1 d) (h.2 d)⟩

omit hP in
/-- **The packets a worker sends are taken by the peer exactly if no early data above the limit is due** in the run: a
packet above the limit is early data, and it costs the peer its socket. -/
theorem data_packets_light_iff {sessionUser : Bool} {es : List ForwardEvent} {t : ForwardTables}
    (hrun : execEvents apply (new sessionUser) es = some t) :
    (∀ d, .data d ∈ t.emitted → d.Light ∧ d.KeepsSocket) ↔ EarlyFitsAlong (new sessionUser) es := by
  rw [light_exec_iff hrun]
  exact and_iff_right fun d hd => (nomatch hd)

end ForwardTables

/-- A SOCKS 4 client that connects to 127.0.0.1:80 and sends on without waiting for the answer. -/
theorem finishSocksHandshake_early (early : Bytes) :
    finishSocksHandshake asciiText [[4, 1, 0, 80, 127, 0, 0, 1, 0], early] =
      .accepted ⟨some "127.0.0.1", some 80⟩ 4 early [] := by
  have : finishSocksHandshake asciiText [[4, 1, 0, 80, 127, 0, 0, 1, 0], early] =
      .accepted ⟨some "127.0.0.1", some 80⟩ 4 (early ++ []) [] := rfl
  rwa [append_nil] at this

namespace ForwardTables

/-- The client's connection is accepted with its early data, and the destination answers. -/
def earlyRun (early : Bytes) : List ForwardEvent :=
  [.accepted {} 3 ⟨some "127.0.0.1", some 80⟩ early (some 4) false false 0,
    .packet {} (.response (some ⟨some 3, some 7, none, none⟩))]

theorem early_data_light :
    ∃ t : ForwardTables, execEvents apply (new true) (earlyRun [1, 2]) = some t ∧ t.emitted.length = 2 ∧
      ∀ d, .data d ∈ t.emitted → d.Light ∧ d.KeepsSocket := by
  obtain ⟨t, hrun, hlength⟩ : ∃ t, execEvents apply (new true) (earlyRun [1, 2]) = some t ∧ t.emitted.length = 2 :=
    ⟨_, rfl, rfl⟩
  refine ⟨t, hrun, hlength, (data_packets_light_iff hrun).mpr ?_⟩
  refine ⟨trivial, fun t₁ h₁ => ⟨?_, fun t₂ _ => trivial⟩⟩
  cases h₁
  intro clientFd accept hfd hpending herror hid hemission
  cases hfd
  cases hpending
  decide

/-- **One byte more than the limit behind the request**, and the worker of the destination drops the socket. -/
theorem early_data_drops_socket :
    ∃ early : Bytes, finishSocksHandshake asciiText [[4, 1, 0, 80, 127, 0, 0, 1, 0], early] =
        .accepted ⟨some "127.0.0.1", some 80⟩ 4 early [] ∧
      ∃ t : ForwardTables, execEvents apply (new true) (earlyRun early) = some t ∧
        ∃ d, t.emitted.getLast? = some (.data d) ∧ (d.buffer.getD []).length = maxDataPacket + 1 ∧
          ∀ s, (handleData d.key.1 d.key.2 none (some s) d).socket = none := by
  obtain ⟨rest, hrest⟩ : ∃ rest : Bytes, rest.length = maxDataPacket := ⟨.replicate _ 0, length_replicate⟩
  have hlength : (0 :: rest).length = maxDataPacket + 1 := congrArg Nat.succ hrest
  refine ⟨0 :: rest, finishSocksHandshake_early _, _, rfl, _, rfl, hlength, fun s => ?_⟩
  simp [handleData, receiveData, sendData, decodeWindow, hrest]

end ForwardTables
end EternalTerminal
