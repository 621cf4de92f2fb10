import EternalTerminal.Net.ForwardTables

/-!
# Net — the bounds of the worker's tables

`Sound` is what every event keeps: most only close sockets (`Fewer`).  `Attaches`: a response is attached only to a
pending accept with its token, which it takes out.

Main result: `forward_tables_bounded`.
-/

namespace EternalTerminal
open List AList

/-! ### The sizes of the tables -/

variable {V : Type} {m : FdMap V} {k : Int} {w : V}

theorem length_keys_insert_le (m : FdMap V) (k : Int) (v : V) :
    (m.insert k v).keys.length ≤ m.keys.length + 1 := by
  rw [keys_insert, length_cons]
  exact Nat.succ_le_succ length_erase_le

theorem length_keys_insert_of_mem {v : V} (h : m.lookup k = some w) :
    (m.insert k v).keys.length = m.keys.length := by
  have hmem : k ∈ m.keys := AList.lookup_isSome.mp (by rw [h]; rfl)
  have hpos : 0 < m.keys.length := length_pos_of_mem hmem
  rw [keys_insert, length_cons, length_erase_of_mem hmem]
  omega

theorem length_keys_erase_le (m : FdMap V) (k : Int) : (m.erase k).keys.length ≤ m.keys.length := by
  rw [keys_erase]
  exact length_erase_le

theorem length_keys_erase_of_mem (h : m.lookup k = some w) :
    (m.erase k).keys.length + 1 = m.keys.length := by
  have hmem : k ∈ m.keys := AList.lookup_isSome.mp (by rw [h]; rfl)
  have hpos : 0 < m.keys.length := length_pos_of_mem hmem
  rw [keys_erase, length_erase_of_mem hmem]
  omega

theorem lookup_of_lookup_insert {k' : Int} {v : V} (h : (m.insert k v).lookup k' = some w) :
    (k' = k ∧ w = v) ∨ m.lookup k' = some w := by
  by_cases hsame : k' = k
  · rw [hsame, lookup_insert] at h
    exact .inl ⟨hsame, (Option.some.inj h).symm⟩
  · exact .inr (lookup_insert_ne hsame ▸ h)

namespace ForwardTables
variable {t t' : ForwardTables}
variable {world : ForwardWorld} {accept : PendingAccept} {message : ForwardMessage} {key : SocketKey}
variable {failure : Option IoError} {clientFd socketId : Int} {socket : Option SocketIo}
variable {peerAdvertised : Option FlowWindow}

/-- The open sockets of both roles. -/
def openSockets (t : ForwardTables) : Nat := t.sources.keys.length + t.destinations.keys.length

theorem openSockets_setSocket {n : Nat} (h : ∀ m : FdMap SocketIo, m.lookup key.2 = t.socket key →
      (assign m key.2 socket).keys.length ≤ m.keys.length + n) :
    (t.setSocket key socket).openSockets ≤ t.openSockets + n := by
  obtain ⟨role, socketId⟩ := key
  cases role with
  | source =>
    have := h t.sources rfl
    simp only [openSockets, setSocket] at this ⊢
    omega
  | destination =>
    have := h t.destinations rfl
    simp only [openSockets, setSocket] at this ⊢
    omega

theorem openSockets_setSocket_le (t : ForwardTables) (key : SocketKey) (socket : Option SocketIo) :
    (t.setSocket key socket).openSockets ≤ t.openSockets + 1 := by
  refine openSockets_setSocket fun m _ => ?_
  cases socket with
  | some s => exact length_keys_insert_le m key.2 s
  | none => exact (length_keys_erase_le m key.2).trans (Nat.le_succ _)

theorem openSockets_setSocket_of_isSome
    (h : socket.isSome = true → (t.socket key).isSome = true) : (t.setSocket key socket).openSockets ≤ t.openSockets := by
  refine openSockets_setSocket (n := 0) fun m hm => ?_
  cases socket with
  | some s =>
    obtain ⟨w, hw⟩ := Option.isSome_iff_exists.mp (h rfl)
    exact (length_keys_insert_of_mem (hm.trans hw)).le
  | none => exact length_keys_erase_le m key.2

theorem totalSockets_eq (t : ForwardTables) :
    t.totalSockets = t.pending.keys.length + t.connecting.card + t.openSockets := by
  rw [totalSockets, openSockets, Nat.add_assoc]

/-! ### What every event keeps -/

/-- What the worker knows of its tables, with their history. -/
structure Sound (t : ForwardTables) : Prop where
  total : t.totalSockets ≤ maxActiveSockets
  parked : t.pending.keys.length ≤ maxUnassignedFds
  -- each connector at work has its id in `connecting`
  connecting : ∀ c ∈ t.connectors, c.socketId ∈ t.connecting
  connectors : (t.connectors.map Connector.socketId).Nodup
  next : 0 < t.nextSocketId
  -- an id is below the next one from when it is allocated, and handed out only once its connector is gone
  allocated : ∀ c ∈ t.connectors, 0 < c.socketId ∧ c.socketId < t.nextSocketId ∧ c.socketId ∉ t.handedOut
  positive : ∀ id ∈ t.handedOut, 0 < id ∧ id < t.nextSocketId
  handedOut : t.handedOut.Nodup
  -- the accepts: those attached are not pending, and no two tokens have the same one
  attached : t.attached.Nodup
  past : ∀ n ∈ t.attached, n < t.accepts
  pending : ∀ fd accept, t.pending.lookup fd = some accept → accept.serial < t.accepts ∧ accept.serial ∉ t.attached
  distinct : ∀ fd fd' accept accept', t.pending.lookup fd = some accept → t.pending.lookup fd' = some accept' →
    accept.serial = accept'.serial → fd = fd'

theorem sound_new (sessionUser : Bool) : (new sessionUser).Sound where
  total := Nat.zero_le _
  parked := Nat.zero_le _
  connecting := nofun
  connectors := nodup_nil
  next := Int.zero_lt_one
  allocated := nofun
  positive := nofun
  handedOut := nodup_nil
  attached := nodup_nil
  past := nofun
  pending := nofun
  distinct := nofun

/-- From `t` to `t'` at most open sockets went, and nothing was handed out or attached. -/
structure Fewer (t t' : ForwardTables) : Prop where
  openSockets : t'.openSockets ≤ t.openSockets
  pending : t'.pending = t.pending
  connecting : t'.connecting = t.connecting
  connectors : t'.connectors = t.connectors
  next : t'.nextSocketId = t.nextSocketId
  handedOut : t'.handedOut = t.handedOut
  accepts : t'.accepts = t.accepts
  attached : t'.attached = t.attached

theorem Fewer.refl (t : ForwardTables) : Fewer t t := ⟨Nat.le_refl _, rfl, rfl, rfl, rfl, rfl, rfl, rfl⟩

theorem Fewer.trans {t₁ t₂ t₃ : ForwardTables} (h : Fewer t₁ t₂) (h' : Fewer t₂ t₃) : Fewer t₁ t₃ where
  openSockets := h'.openSockets.trans h.openSockets
  pending := h'.pending.trans h.pending
  connecting := h'.connecting.trans h.connecting
  connectors := h'.connectors.trans h.connectors
  next := h'.next.trans h.next
  handedOut := h'.handedOut.trans h.handedOut
  accepts := h'.accepts.trans h.accepts
  attached := h'.attached.trans h.attached

theorem Sound.fewer (h : t.Sound) (hfewer : Fewer t t') : t'.Sound := by
  obtain ⟨hopen, hpend, hconnecting, hconnectors, hnext, hhanded, hacc, hatt⟩ := hfewer
  constructor
  · rw [totalSockets_eq, hpend, hconnecting]
    have := h.total
    rw [totalSockets_eq] at this
    omega
  · exact hpend ▸ h.parked
  · exact hconnectors ▸ hconnecting ▸ h.connecting
  · exact hconnectors ▸ h.connectors
  · exact hnext ▸ h.next
  · exact hconnectors ▸ hnext ▸ hhanded ▸ h.allocated
  · exact hnext ▸ hhanded ▸ h.positive
  · exact hhanded ▸ h.handedOut
  · exact hatt ▸ h.attached
  · exact hatt ▸ hacc ▸ h.past
  · exact hpend ▸ hacc ▸ hatt ▸ h.pending
  · exact hpend ▸ h.distinct

/-- The tables are still sound, and no accept was attached. -/
def Steady (t t' : ForwardTables) : Prop := t'.Sound ∧ t'.attached = t.attached

theorem Sound.steady (h : t.Sound) (hfewer : Fewer t t') : Steady t t' := ⟨h.fewer hfewer, hfewer.attached⟩

theorem handedOut_append (emitted : List ForwardMessage) (message : ForwardMessage) :
    (emitted ++ [message]).filterMap ForwardMessage.handsOut =
      emitted.filterMap ForwardMessage.handsOut ++ message.handsOut.toList := by
  rw [filterMap_append]
  rfl

/-- A message that hands no id out. -/
theorem fewer_emit (h : message.handsOut = none) :
    Fewer t (t.emit world message).2 := by
  unfold emit
  split
  · exact .refl t
  refine ⟨Nat.le_refl _, rfl, rfl, rfl, rfl, ?_, rfl, rfl⟩
  show (t.emitted ++ [message]).filterMap _ = _
  rw [handedOut_append, h]
  exact append_nil _

theorem fewer_unpark (accept : PendingAccept) : Fewer t (t.unpark accept) := by
  unfold unpark
  split
  · exact ⟨Nat.le_refl _, rfl, rfl, rfl, rfl, rfl, rfl, rfl⟩
  · exact .refl t

/-- An id that was allocated, and that neither a connector nor a response has. -/
structure Unused (t : ForwardTables) (id : Int) : Prop where
  positive : 0 < id
  allocated : id < t.nextSocketId
  handedOut : id ∉ t.handedOut
  connectors : ∀ c ∈ t.connectors, c.socketId ≠ id

/-- An id is handed out. -/
theorem sound_emit (h : t.Sound)
    (hunused : ∀ id, message.handsOut = some id → t.Unused id) : (t.emit world message).2.Sound := by
  cases hout : message.handsOut with
  | none => exact h.fewer (fewer_emit hout)
  | some id =>
    have hid := hunused id hout
    unfold emit
    split
    · exact h
    have hhanded : { t with emitted := t.emitted ++ [message] }.handedOut = t.handedOut ++ [id] := by
      show (t.emitted ++ [message]).filterMap _ = _
      rw [handedOut_append, hout]
      rfl
    refine { h with allocated := ?_, positive := ?_, handedOut := ?_ }
    · intro c hc
      obtain ⟨hpos, hlt, hnot⟩ := h.allocated c hc
      rw [hhanded, mem_append, mem_singleton]
      exact ⟨hpos, hlt, not_or.mpr ⟨hnot, hid.connectors c hc⟩⟩
    · intro id' hid'
      rw [hhanded, mem_append, mem_singleton] at hid'
      rcases hid' with hid' | rfl
      · exact h.positive id' hid'
      · exact ⟨hid.positive, hid.allocated⟩
    · rw [hhanded]
      exact h.handedOut.append (nodup_singleton id) (by simpa using hid.handedOut)

/-- A socket is opened where there is room for it. -/
theorem sound_setSocket (h : t.Sound) (hroom : t.totalSockets < maxActiveSockets) :
    (t.setSocket key socket).Sound := by
  have hopen := openSockets_setSocket_le t key socket
  have hsame : (t.setSocket key socket).pending = t.pending ∧ (t.setSocket key socket).connecting = t.connecting := by
    unfold setSocket
    split <;> exact ⟨rfl, rfl⟩
  have htot : (t.setSocket key socket).totalSockets ≤ maxActiveSockets := by
    rw [totalSockets_eq, hsame.1, hsame.2]
    rw [totalSockets_eq] at hroom
    omega
  unfold setSocket at htot ⊢
  split at htot <;> exact { h with total := htot }

theorem attached_emit : (t.emit world message).2.attached = t.attached := by
  unfold emit
  split <;> rfl

/-- What a set-up of a socket leaves of the rest. -/
theorem frame_setSocket (t : ForwardTables) (key : SocketKey) (socket : Option SocketIo) :
    (t.setSocket key socket).pending = t.pending ∧ (t.setSocket key socket).accepts = t.accepts ∧
      (t.setSocket key socket).attached = t.attached := by
  unfold setSocket
  split <;> exact ⟨rfl, rfl, rfl⟩

section
variable (h : t.Sound)
include h

/-- **A connection has ended**, for an id that no connector has any more; if it succeeded the id is handed out. -/
theorem steady_connected (hgone : ∀ c ∈ t.connectors, c.socketId ≠ socketId)
    (hid : failure = none → t.Unused socketId)
    (hroom : failure = none → { t with connecting := t.connecting.erase socketId }.totalSockets < maxActiveSockets) :
    Steady t (t.connected world clientFd socketId failure peerAdvertised).2 := by
  have hbef : { t with
      connecting := t.connecting.erase socketId
      pendingAgentBinds := t.pendingAgentBinds.erase socketId }.Sound := by
    refine { h with total := ?_, connecting := ?_ }
    · refine Nat.le_trans ?_ h.total
      have := Finset.card_erase_le (s := t.connecting) (a := socketId)
      simp only [totalSockets]
      omega
    · exact fun c hc => Finset.mem_erase.mpr ⟨hgone c hc, h.connecting c hc⟩
  unfold connected
  split
  · exact hbef.steady (fewer_emit rfl)
  next =>
    simp only
    split
    · exact hbef.steady (fewer_emit rfl)
    unfold activate
    split
    next heq =>
      split at heq
      · cases heq
        exact ⟨hbef, rfl⟩
      · cases heq
    next heq =>
      split at heq
      · cases heq
      cases heq
      refine ⟨sound_emit (sound_setSocket hbef (hroom rfl)) fun id hout => ?_,
        attached_emit.trans (frame_setSocket _ _ _).2.2⟩
      cases hout
      have hid := hid rfl
      exact { hid with }

/-- **A connector reports**, once. -/
theorem steady_connectorReports {index : Nat} : Steady t (t.connectorReports world index failure).2 := by
  unfold connectorReports
  split
  · exact ⟨h, rfl⟩
  next connector hidx =>
    have hmem := mem_of_getElem? hidx
    obtain ⟨hpos, hlt, hnot⟩ := h.allocated connector hmem
    have hsub := eraseIdx_sublist t.connectors index
    have hgone : ∀ c ∈ t.connectors.eraseIdx index, c.socketId ≠ connector.socketId := by
      intro c hc hsame
      obtain ⟨hlen, hget⟩ := List.getElem?_eq_some_iff.mp hidx
      obtain ⟨i, hi, hne, hgeti⟩ := mem_eraseIdx_iff_getElem.mp hc
      refine hne ?_
      have hnodup := h.connectors
      rw [nodup_iff_injective_get] at hnodup
      have hinj := @hnodup ⟨i, by rw [length_map]; exact hi⟩ ⟨index, by rw [length_map]; exact hlen⟩ (by
        simp only [get_eq_getElem, getElem_map, hgeti, hget, hsame])
      exact congrArg Fin.val hinj
    have hbef : { t with
        connectors := t.connectors.eraseIdx index
        pendingWindows := t.pendingWindows.erase connector.socketId }.Sound := by
      refine { h with
        connecting := fun c hc => h.connecting c (hsub.mem hc)
        connectors := ?_
        allocated := fun c hc => h.allocated c (hsub.mem hc) }
      exact h.connectors.sublist (hsub.map Connector.socketId)
    refine steady_connected hbef hgone (fun _ => ⟨hpos, hlt, hnot, hgone⟩) fun _ => ?_
    have hconnecting := h.connecting connector hmem
    have hcard := Finset.card_erase_of_mem hconnecting
    have hcardpos := Finset.card_pos.mpr ⟨_, hconnecting⟩
    have htot := h.total
    simp only [totalSockets] at htot ⊢
    omega

/-- A connector is started for an id that nobody has, where there is room for it. -/
theorem sound_spawnConnector {destination : Endpoint} (hroom : t.totalSockets < maxActiveSockets)
    (hid : t.Unused socketId) : (t.spawnConnector clientFd socketId destination peerAdvertised).Sound := by
  refine { h with total := ?_, connecting := ?_, connectors := ?_, allocated := ?_ }
  · have := Finset.card_insert_le socketId t.connecting
    simp only [totalSockets, spawnConnector] at hroom ⊢
    omega
  · exact forall_mem_append.mpr ⟨fun c hc => Finset.mem_insert_of_mem (h.connecting c hc),
      forall_mem_singleton.mpr (Finset.mem_insert_self _ _)⟩
  · show ((t.connectors ++ [Connector.mk clientFd socketId]).map Connector.socketId).Nodup
    rw [map_append]
    refine h.connectors.append (nodup_singleton _) fun id hid₁ hid₂ => ?_
    obtain ⟨c, hc, rfl⟩ := mem_map.mp hid₁
    exact hid.connectors c hc (mem_singleton.mp hid₂)
  · exact forall_mem_append.mpr ⟨h.allocated, forall_mem_singleton.mpr ⟨hid.positive, hid.allocated, hid.handedOut⟩⟩

/-- **A destination is requested.** -/
theorem steady_requestDestination {request : PortForwardDestinationRequest} :
    Steady t (t.requestDestination world request).2 := by
  have hzero : ∀ c ∈ t.connectors, c.socketId ≠ 0 := fun c hc hc0 => by
    have := (h.allocated c hc).1
    omega
  unfold requestDestination
  split
  · exact ⟨h, rfl⟩
  next clientFd _ =>
    split
    · exact steady_connected h hzero nofun nofun
    next destination _ =>
      split
      · exact steady_connected h hzero nofun nofun
      next hroom =>
        unfold allocateSocketId
        split
        next heq => split at heq <;> cases heq; exact ⟨h, rfl⟩
        next socketId _ heq =>
          split at heq
          next hnext =>
            cases heq
            -- the id is new: every id so far is below it
            have hbelow : ∀ c ∈ t.connectors, c.socketId ≠ t.nextSocketId := fun c hc hsame => by
              have := (h.allocated c hc).2.1
              omega
            have hnot : t.nextSocketId ∉ t.handedOut := fun hmem => by
              have := (h.positive _ hmem).2
              omega
            have hallocated : { t with nextSocketId := t.nextSocketId + 1 }.Sound := by
              refine { h with next := ?_, allocated := ?_, positive := ?_ }
              · exact Int.lt_add_one_of_le h.next.le
              · intro c hc
                obtain ⟨hpos, hlt, hout⟩ := h.allocated c hc
                exact ⟨hpos, Int.lt_add_one_of_le hlt.le, hout⟩
              · intro id hid
                obtain ⟨hpos, hlt⟩ := h.positive id hid
                exact ⟨hpos, Int.lt_add_one_of_le hlt.le⟩
            split
            · refine steady_connected hallocated hbelow (fun _ => ⟨h.next, Int.lt_succ_self _, hnot, hbelow⟩) fun _ => ?_
              have := Finset.card_erase_le (s := t.connecting) (a := t.nextSocketId)
              simp only [totalSockets] at hroom ⊢
              omega
            · exact ⟨sound_spawnConnector hallocated (Nat.lt_of_not_le hroom)
                ⟨h.next, Int.lt_succ_self _, hnot, hbelow⟩, rfl⟩
          next => cases heq

/-- **A socket is accepted**: where there is room for it, it is parked under its token. -/
theorem sound_accepted {destination : SocketEndpoint} (hserial : accept.serial = t.accepts) :
    ({ t with accepts := t.accepts + 1 }.accepted world clientFd destination accept).2.Sound := by
  have hcnt : { t with accepts := t.accepts + 1 }.Sound :=
    { h with
      past := fun n hn => Nat.lt_succ_of_lt (h.past n hn)
      pending := fun fd accept hfd => (h.pending fd accept hfd).imp_left Nat.lt_succ_of_lt }
  unfold accepted
  split
  · exact hcnt.fewer (fewer_unpark accept)
  next hroom =>
    obtain ⟨htot, hparked⟩ := not_or.mp hroom
    have hlen := length_keys_insert_le t.pending clientFd accept
    refine Sound.fewer ?_ (fewer_emit rfl)
    refine { h with total := ?_, parked := ?_, past := hcnt.past, pending := ?_, distinct := ?_ }
    · simp only [totalSockets] at htot ⊢
      omega
    · simp only at hparked ⊢
      omega
    · intro fd accept' hfd
      rcases lookup_of_lookup_insert hfd with ⟨-, rfl⟩ | hfd
      · rw [hserial]
        exact ⟨Nat.lt_succ_self _, fun hmem => Nat.lt_irrefl _ (h.past _ hmem)⟩
      · exact hcnt.pending fd accept' hfd
    · -- the new accept has a serial that none of the others has
      have hnew : ∀ fd accept', t.pending.lookup fd = some accept' → accept'.serial ≠ accept.serial := by
        intro fd accept' hfd hsame
        have := (h.pending fd accept' hfd).1
        omega
      intro fd fd' accept₁ accept₂ h₁ h₂ hsame
      rcases lookup_of_lookup_insert h₁ with ⟨rfl, rfl⟩ | hfd <;>
        rcases lookup_of_lookup_insert h₂ with ⟨rfl, rfl⟩ | hfd'
      · rfl
      · exact absurd hsame.symm (hnew fd' accept₂ hfd')
      · exact absurd hsame (hnew fd accept₁ hfd)
      · exact h.distinct fd fd' accept₁ accept₂ hfd hfd' hsame

end

/-- What was pending before an accept was taken out. -/
theorem lookup_of_lookup_erase {V : Type} {m : FdMap V} {k k' : Int} {v : V} (h : (m.erase k).lookup k' = some v) :
    k' ≠ k ∧ m.lookup k' = some v := by
  by_cases hsame : k' = k
  · subst hsame
    rw [lookup_erase] at h
    cases h
  · rw [lookup_erase_ne hsame] at h
    exact ⟨hsame, h⟩

/-- An accept is no longer pending. -/
theorem sound_erase_pending (h : t.Sound) (clientFd : Int) : { t with pending := t.pending.erase clientFd }.Sound := by
  have hlen := length_keys_erase_le t.pending clientFd
  refine { h with
    total := ?_
    parked := hlen.trans h.parked
    pending := fun fd accept hfd => ?_
    distinct := fun fd fd' accept accept' hfd hfd' => ?_ }
  · have := h.total
    simp only [totalSockets] at this ⊢
    omega
  · exact h.pending fd accept (lookup_of_lookup_erase hfd).2
  · exact h.distinct fd fd' accept accept' (lookup_of_lookup_erase hfd).2 (lookup_of_lookup_erase hfd').2

theorem fewer_setSocket
    (h : socket.isSome = true → (t.socket key).isSome = true) : Fewer t (t.setSocket key socket) := by
  have hopen := openSockets_setSocket_of_isSome h
  unfold setSocket at hopen ⊢
  split at hopen <;> exact ⟨hopen, rfl, rfl, rfl, rfl, rfl, rfl, rfl⟩

theorem fewer_sendEarly {early : Bytes} :
    Fewer t (t.sendEarly world socketId early).2 := by
  unfold sendEarly
  split
  · exact .refl t
  · exact fewer_emit rfl

theorem Fewer.total_le (h : Fewer t t') : t'.totalSockets ≤ t.totalSockets := by
  have := h.openSockets
  rw [totalSockets_eq, totalSockets_eq, h.pending, h.connecting]
  omega

/-- The accept is attached: it was pending at no token any more, and no response had it. -/
theorem sound_sourceActive (h : t.Sound) (hpast : accept.serial < t.accepts) (hnot : accept.serial ∉ t.attached)
    (hgone : ∀ fd accept', t.pending.lookup fd = some accept' → accept'.serial ≠ accept.serial) :
    (t.sourceActive socketId accept).Sound := by
  have hmarked : Fewer t (t.setSocket (.source, socketId)
      ((t.socket (.source, socketId)).map fun s => { s with halfCloseOnEof := accept.halfCloseOnEof })) :=
    fewer_setSocket fun hsome => by rwa [Option.isSome_map] at hsome
  have hsd := h.fewer hmarked
  refine { hsd with attached := ?_, past := ?_, pending := ?_ }
  · exact h.attached.append (nodup_singleton _) (by simpa using hnot)
  · exact hmarked.accepts ▸ forall_mem_append.mpr ⟨h.past, forall_mem_singleton.mpr hpast⟩
  · intro fd accept' hfd
    obtain ⟨hlt, hnot'⟩ := h.pending fd accept' hfd
    refine ⟨hmarked.accepts ▸ hlt, fun hm => ?_⟩
    exact (mem_append.mp hm).elim hnot' fun hm => hgone fd accept' hfd (mem_singleton.mp hm)

/-- **A response is attached** to an accept that has just been taken out, and so has its place; or something failed on
the way. -/
theorem sound_attach (h : t.Sound) (hroom : t.totalSockets < maxActiveSockets) (hpast : accept.serial < t.accepts)
    (hnot : accept.serial ∉ t.attached)
    (hgone : ∀ fd accept', t.pending.lookup fd = some accept' → accept'.serial ≠ accept.serial) :
    let t' := (t.attach world socketId accept peerAdvertised).2
    t'.Sound ∧ t'.pending = t.pending ∧ (t'.attached = t.attached ∨ t'.attached = t.attached ++ [accept.serial]) := by
  have hear : Fewer t (t.sendEarly world socketId accept.early).2 := fewer_sendEarly
  unfold attach
  split
  next hsent =>
    rw [hsent] at hear
    exact ⟨h.fewer hear, hear.pending, .inl hear.attached⟩
  next t₁ hsent =>
    rw [hsent] at hear
    unfold activate
    split
    next heq =>
      split at heq
      · cases heq
        exact ⟨h.fewer hear, hear.pending, .inl hear.attached⟩
      · cases heq
    next t₂ heq =>
      split at heq
      · cases heq
      cases heq
      obtain ⟨hpend, hacc, hatt⟩ := frame_setSocket t₁ (.source, socketId)
        (some (.new .source socketId peerAdvertised none))
      have hpend := hpend.trans hear.pending
      have hatt := hatt.trans hear.attached
      refine ⟨sound_sourceActive (sound_setSocket (h.fewer hear) (Nat.lt_of_le_of_lt hear.total_le hroom)) ?_ ?_ ?_,
        (frame_setSocket _ _ _).1.trans hpend, .inr (congrArg (· ++ [accept.serial]) hatt)⟩
      · rw [hacc, show t₁.accepts = t.accepts from hear.accepts]
        exact hpast
      · rw [hatt]
        exact hnot
      · rw [hpend]
        exact hgone

/-- **A destination response**: it attaches nothing, or the accept that was pending under its token, which it takes
out. -/
theorem sound_destinationResponse {response : PortForwardDestinationResponse} (h : t.Sound) :
    let t' := (t.destinationResponse world response).2
    t'.Sound ∧ (t'.attached = t.attached ∨
      ∃ clientFd accept, response.clientfd = some clientFd ∧ t.pending.lookup clientFd = some accept ∧
        t'.attached = t.attached ++ [accept.serial] ∧ t'.pending = t.pending.erase clientFd) := by
  unfold destinationResponse
  split
  · exact ⟨h, .inl rfl⟩
  next clientFd hclient =>
    split
    · unfold rejectStaleDestination
      split
      · exact ⟨h, .inl rfl⟩
      · split
        · exact ⟨h, .inl rfl⟩
        · exact ⟨h.fewer (fewer_emit rfl), .inl attached_emit⟩
    next accept hpend =>
      have htak := sound_erase_pending h clientFd
      have hunpark := htak.steady (fewer_unpark accept)
      split
      · exact hunpark.imp_right .inl
      split
      · exact hunpark.imp_right .inl
      next socketId _ =>
        obtain ⟨hpast, hnot⟩ := h.pending clientFd accept hpend
        have hroom : { t with pending := t.pending.erase clientFd }.totalSockets < maxActiveSockets := by
          have hlen := length_keys_erase_of_mem hpend
          have htot := h.total
          simp only [totalSockets] at htot ⊢
          omega
        have hgone : ∀ fd accept', (t.pending.erase clientFd).lookup fd = some accept' →
            accept'.serial ≠ accept.serial := by
          intro fd accept' hfd hsame
          obtain ⟨hne, hfd⟩ := lookup_of_lookup_erase hfd
          exact hne (h.distinct fd clientFd accept' accept hfd hpend hsame)
        refine (sound_attach htak hroom hpast hnot hgone).imp_right fun ⟨herased, hatt⟩ => hatt.imp_right fun hatt => ?_
        exact ⟨clientFd, accept, hclient, hpend, hatt, herased⟩

/-- **An operation on one socket** opens none. -/
theorem fewer_handle {handled : Handled}
    (h : handled.socket.isSome = true → (t.socket key).isSome = true) : Fewer t (t.handle world key handled).2 := by
  unfold handle
  split
  · exact .refl t
  obtain ⟨hopen, hpend, hconnecting, hconnectors, hnext, hhanded, hacc, hatt⟩ := fewer_setSocket h
  refine ⟨hopen, hpend, hconnecting, hconnectors, hnext, ?_, hacc, hatt⟩
  show (t.emitted ++ List.map ForwardMessage.data _).filterMap ForwardMessage.handsOut = t.handedOut
  have hdata : (List.map ForwardMessage.data (handled.emitted ++ handled.credits)).filterMap
      ForwardMessage.handsOut = [] := by
    rw [filterMap_map]
    exact filterMap_eq_nil_iff.mpr fun _ _ => rfl
  rw [filterMap_append, hdata]
  exact append_nil _

/-- An operation that does nothing where there is no socket. -/
theorem steady_handle (op : Option SocketIo → Handled) (h : t.Sound)
    (hnone : (op none).socket = none) : Steady t (t.handle world key (op (t.socket key))).2 := by
  refine h.steady (fewer_handle fun hsome => ?_)
  cases hsock : t.socket key with
  | none =>
    rw [hsock, hnone] at hsome
    cases hsome
  | some s => rfl

theorem fewer_flushHeld (t : ForwardTables) : Fewer t t.flushHeld := by
  have hkept : Fewer t (EternalTerminal.flushHeld socket (fun t key s => t.setSocket key (some s)) t t.held).1 :=
    flushHeld_keeps (fun hfewer hs _ _ => hfewer.trans (fewer_setSocket fun _ => by rw [hs]; rfl)) _
      ⟨Nat.le_refl _, rfl, rfl, rfl, rfl, rfl, rfl, rfl⟩
  exact hkept.trans ⟨Nat.le_refl _, rfl, rfl, rfl, rfl, rfl, rfl, rfl⟩

theorem steady_expireParked (h : t.Sound) (now : Nat) : Steady t (t.expireParked now) := by
  unfold expireParked
  generalize t.expired now = expired
  induction expired generalizing t with
  | nil => exact ⟨h, rfl⟩
  | cons clientFd expired ih =>
    have hexpire : Steady t (t.expire clientFd) := by
      unfold expire
      split
      next accept _ => exact (sound_erase_pending h clientFd).steady (fewer_unpark accept)
      · exact ⟨h, rfl⟩
    exact (ih hexpire.1).imp_right (·.trans hexpire.2)

/-- The event attaches nothing; or it is a response with the token of a pending accept, which it attaches, and which is
pending no more. -/
def Attaches (t : ForwardTables) (e : ForwardEvent) (t' : ForwardTables) : Prop :=
  t'.attached = t.attached ∨
    ∃ world response clientFd accept, e = .packet world (.response (some response)) ∧ response.clientfd = some clientFd ∧
      t.pending.lookup clientFd = some accept ∧ t'.attached = t.attached ++ [accept.serial] ∧
      t'.pending.lookup clientFd = none

/-- **What every event keeps**, also one that fails, and what it attaches. -/
theorem sound_run (h : t.Sound) (e : ForwardEvent) : (t.run e).2.Sound ∧ t.Attaches e (t.run e).2 := by
  have steady : Steady t (t.run e).2 → (t.run e).2.Sound ∧ t.Attaches e (t.run e).2 := And.imp_right .inl
  cases e with
  | accepted =>
    refine steady ⟨sound_accepted h rfl, ?_⟩
    show (accepted _ _ _ _ _).2.attached = _
    unfold accepted
    split
    · exact (fewer_unpark _).attached
    · exact attached_emit
  | connected => exact steady (steady_connectorReports h)
  | packet world packet =>
    cases packet with
    | request message =>
      cases message with
      | none => exact steady ⟨h, rfl⟩
      | some request => exact steady (steady_requestDestination h)
    | response message =>
      cases message with
      | none => exact steady ⟨h, rfl⟩
      | some response =>
        refine (sound_destinationResponse h).imp_right (Or.imp_right ?_)
        rintro ⟨clientFd, accept, hclient, hpend, hatt, herased⟩
        exact ⟨world, response, clientFd, accept, rfl, hclient, hpend, hatt,
          (congrArg (AList.lookup clientFd) herased).trans (lookup_erase _ _)⟩
    | data message =>
      cases message with
      | none => exact steady ⟨h, rfl⟩
      | some message =>
        exact steady (steady_handle (fun socket => handleData message.1.key.1 message.1.key.2 message.2 socket message.1) h
          (by rw [handleData_none]))
    | unsupported => exact steady ⟨h, rfl⟩
  | service world key event writes turns =>
    exact steady (steady_handle (fun socket => serviceEvent key.1 key.2 socket event writes turns) h rfl)
  | flushQueuedWrite world key writes =>
    exact steady (steady_handle (fun socket => EternalTerminal.flushQueuedWrite key.1 key.2 socket writes) h rfl)
  | flushDueCredits world key =>
    exact steady (steady_handle (fun socket => EternalTerminal.flushDueCredits key.1 key.2 socket) h rfl)
  | flushHeld => exact steady (h.steady (fewer_flushHeld t))
  | expireParked now => exact steady (steady_expireParked h now)
  | setSshAgentSessionBinds => exact steady (h.steady ⟨Nat.le_refl _, rfl, rfl, rfl, rfl, rfl, rfl, rfl⟩)
  | takeOver => exact steady (h.steady ⟨Nat.le_refl _, rfl, rfl, rfl, rfl, rfl, rfl, rfl⟩)
  | stop => exact steady ⟨h, rfl⟩

/-- A worker that stops. -/
theorem sound_finish (h : t.Sound) : t.finish.Sound := by
  refine { h with total := ?_, parked := Nat.zero_le _, pending := nofun, distinct := nofun }
  have htot := h.total
  simp only [totalSockets, finish, keys_empty, length_nil] at htot ⊢
  omega

theorem sound_apply {e : ForwardEvent} (h : t.Sound) (ht : t.apply e = some t') : t'.Sound ∧ t.Attaches e t' := by
  have hrun := sound_run h e
  unfold apply at ht
  split at ht
  · cases ht
  split at ht
  next heq =>
    rw [heq] at hrun
    cases ht
    exact hrun
  next heq =>
    rw [heq] at hrun
    cases ht
    refine ⟨sound_finish hrun.1, hrun.2.imp_right ?_⟩
    rintro ⟨world, response, clientFd, accept, he, hclient, hpending, happended, -⟩
    exact ⟨world, response, clientFd, accept, he, hclient, hpending, happended, rfl⟩

end ForwardTables

open ForwardTables

theorem sound_tables_reachable {sessionUser : Bool} {t : ForwardTables}
    (hrun : Relation.ReflTransGen ForwardTables.Step (.new sessionUser) t) : t.Sound :=
  reach_invariant (P := ForwardTables.Sound) hrun (sound_new sessionUser)
    fun _ _ h ⟨_, ht⟩ => (ForwardTables.sound_apply h ht).1

/-- **The tables of the worker**, in every run: its sockets and its pending accepts are within their limits, the
destination ids it hands out are positive and never the same, and a response is attached only to an accept that is
pending under its token, which it then is no longer; no accept is attached twice. -/
theorem forward_tables_bounded {sessionUser : Bool} {t : ForwardTables}
    (hrun : Relation.ReflTransGen ForwardTables.Step (.new sessionUser) t) :
    t.totalSockets ≤ maxActiveSockets ∧ t.pending.keys.length ≤ maxUnassignedFds ∧
      (∀ id ∈ t.handedOut, 0 < id) ∧ t.handedOut.Nodup ∧ t.attached.Nodup ∧
      ∀ e t', t.apply e = some t' →
        t'.attached = t.attached ∨
          ∃ world response clientFd accept, e = .packet world (.response (some response)) ∧
            response.clientfd = some clientFd ∧ t.pending.lookup clientFd = some accept ∧
            t'.attached = t.attached ++ [accept.serial] ∧ t'.pending.lookup clientFd = none := by
  have h := sound_tables_reachable hrun
  exact ⟨h.total, h.parked, fun id hid => (h.positive id hid).1, h.handedOut, h.attached,
    fun e t' ht => (ForwardTables.sound_apply h ht).2⟩

/-- An accept that gets two responses, the second of them stale, and a destination that the peer asks for. -/
def attachedRun : List ForwardEvent :=
  [.accepted {} 7 ⟨none, some 22⟩ [] none false false 0, .packet {} (.response (some ⟨some 7, some 44, none, none⟩)),
    .packet {} (.response (some ⟨some 7, some 45, none, none⟩)),
    .packet {} (.request (some ⟨some ⟨none, some 80⟩, some 3, none⟩))]

theorem forward_tables_bounded_attached :
    ∃ t, Relation.ReflTransGen ForwardTables.Step (.new true) t ∧ t.attached = [0] ∧ t.handedOut = [1] ∧
      t.totalSockets = 2 ∧ t.totalSockets ≤ maxActiveSockets ∧ t.attached.Nodup := by
  have hexec : ((execEvents ForwardTables.apply (.new true) attachedRun).any fun t =>
      decide (t.attached = [0] ∧ t.handedOut = [1] ∧ t.totalSockets = 2)) = true := by decide +kernel
  obtain ⟨t, ht, hdecide⟩ := (Option.any_eq_true _ _).mp hexec
  obtain ⟨hattached, hhanded, htotal⟩ := of_decide_eq_true hdecide
  have hrun : Relation.ReflTransGen ForwardTables.Step (.new true) t := reach_of_exec (fun _ e _ h => ⟨e, h⟩) attachedRun ht
  obtain ⟨hbound, -, -, -, hnodup, -⟩ := forward_tables_bounded hrun
  exact ⟨t, hrun, hattached, hhanded, htotal, hbound, hnodup⟩

end EternalTerminal
