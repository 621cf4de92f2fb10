import EternalTerminal.Server.RouterRuns

/-!
# Server — what the router may count on

A terminal whose startup status the router still reads is registered, with the status pending (`Live`), or it has
hung up and left no whole status (`Dead`): `RouterWorld.Guarded`, with what keeps the streams and the registrations
of different terminals apart.
-/

namespace EternalTerminal
open Program List RegistryState Function
variable (decoder : LocalPacketDecoder) (sock : LocalSocket)

/-! ### Reading from a terminal -/

theorem isPacket_readEnd :
    (readEnd decoder sock).1.isPacket = false := by
  unfold readEnd
  split
  · split <;> rfl
  · rfl
  · rfl

theorem closed_recvEmpty : sock.recvEmpty.2.closed = sock.closed := by
  unfold LocalSocket.recvEmpty
  split
  next hpeer =>
    rw [LocalSocket.closed, LocalSocket.closed, hpeer]
    rfl
  · rfl
  · rfl

theorem closed_readEnd :
    (readEnd decoder sock).2.2.closed = sock.closed := by
  have hcl := closed_recvEmpty sock
  unfold readEnd
  split
  next heq =>
    rw [heq] at hcl
    split <;> exact hcl
  next heq =>
    rw [heq] at hcl
    exact hcl
  next heq =>
    rw [heq] at hcl
    exact hcl

/-- Whether a packet can be read depends on the bytes that are there and on nothing else of the socket. -/
theorem isPacket_readDecoder (peer : PeerEnd) (unread : Bytes) :
    (readDecoder decoder ⟨sock.incoming, peer, unread⟩).1.isPacket =
      (readDecoder decoder sock).1.isPacket := by
  fun_induction readDecoder decoder sock with
  | case1 decoder sock needed hneed =>
    rw [readDecoder, if_pos hneed]
  | case2 decoder sock needed hneed hemp =>
    rw [readDecoder, if_neg hneed, if_pos hemp, isPacket_readEnd, isPacket_readEnd]
  | case3 decoder sock needed hneed hemp rest packet decoder' hfeed =>
    rw [readDecoder, if_neg hneed, if_neg hemp, hfeed]
  | case4 decoder sock needed hneed hemp rest decoder' hfeed ih =>
    rw [readDecoder, if_neg hneed, if_neg hemp, hfeed]
    exact ih
  | case5 decoder sock needed hneed hemp rest error decoder' hfeed =>
    rw [readDecoder, if_neg hneed, if_neg hemp, hfeed]

theorem closed_readDecoder :
    (readDecoder decoder sock).2.2.closed = sock.closed := by
  fun_induction readDecoder decoder sock with
  | case1 => rfl
  | case2 decoder sock => exact closed_readEnd decoder sock
  | case3 => rfl
  | case4 decoder sock needed hneed hemp rest decoder' hfeed ih => exact ih
  | case5 => rfl

variable {α β : Type} {l : List α} {index : Nat} {a a' : α} {sock : LocalSocket} {f : α → β}

/-- A read at the end of a closed stream gives the decoder up. -/
theorem isPacket_new_of_end (hemp : sock.incoming = []) :
    (readDecoder .new sock).1.isPacket = false := by
  rw [readDecoder, if_neg (by decide), if_pos hemp]
  exact isPacket_readEnd _ _

/-- What a closed terminal left is read once: after a read without a packet there is none. -/
theorem isPacket_again {decoder : LocalPacketDecoder} (hcl : sock.closed = true)
    (hpend : (readDecoder decoder sock).1 = .pending) :
    (readDecoder (readDecoder decoder sock).2.1 (readDecoder decoder sock).2.2).1.isPacket = false := by
  fun_induction readDecoder decoder sock with
  | case1 => cases hpend
  | case2 decoder sock needed hneed hemp =>
    cases hpeer : sock.peer with
    | connected =>
      rw [LocalSocket.closed, hpeer] at hcl
      cases hcl
    | closed =>
      rw [readEnd, LocalSocket.recvEmpty, hpeer]
      dsimp only
      split
      · exact isPacket_new_of_end hemp
      · exact isPacket_new_of_end hemp
    | reset =>
      rw [readEnd, LocalSocket.recvEmpty, hpeer] at hpend
      cases hpend
  | case3 => cases hpend
  | case4 decoder sock needed hneed hemp rest decoder' hfeed ih => exact ih hcl hpend
  | case5 => cases hpend

/-! ### The terminals the router waits for -/

namespace RouterWorld
variable {s t : RouterWorld} {watches : List WatchedRegistration} {streams : List Nat}
variable {stream : Nat} {sock : LocalSocket}

/-- The terminal is registered, and its startup status is awaited. -/
def Live (s : RouterWorld) (w : WatchedRegistration) : Prop :=
  ∃ stored, s.registry.current w.identity = some stored ∧ stored.stream = w.stream ∧ stored.awaited = true

/-- The terminal has hung up and lost its registration, and it left no whole startup status. -/
structure Dead (s : RouterWorld) (w : WatchedRegistration) (decoder : LocalPacketDecoder) : Prop where
  gone : s.registry.current w.identity = none
  closed : (s.sockets w.stream).closed = true
  spent : (readDecoder decoder (s.sockets w.stream)).1.isPacket = false

/-- The stream of a registration is in the hands of the terminal that registered with it. -/
structure Owned (s : RouterWorld) (watches : List WatchedRegistration) (streams : List Nat)
    (stored : StoredRegistration) : Prop where
  used : stored.stream < s.nextSocket
  free : stored.stream ∉ s.backlog.map (·.1) ++ streams
  watch : ∀ w ∈ watches, w.stream = stored.stream → w.identity = stored.info.toIdentity

/-- The router watches `watches`, and has the connections `streams` besides. -/
structure Guarded (s : RouterWorld) (watches : List WatchedRegistration) (streams : List Nat) : Prop where
  awaits : ∀ w ∈ watches, ∀ decoder, w.startup = some decoder → s.Live w ∨ s.Dead w decoder
  identities : (watches.map (·.identity)).Nodup
  fresh : ∀ w ∈ watches, w.identity.identity < s.nextIdentity
  nodup : (s.backlog.map (·.1) ++ streams ++ watches.map (·.stream)).Nodup
  used : ∀ stream ∈ s.backlog.map (·.1) ++ streams ++ watches.map (·.stream), stream < s.nextSocket
  owned : ∀ id stored, s.registry.registrations.lookup id = some stored → s.Owned watches streams stored

section
variable (h : s.Guarded watches streams) (hback : t.backlog = s.backlog) (hsock : t.nextSocket = s.nextSocket)
  (hidentity : s.nextIdentity ≤ t.nextIdentity)
include h hback hsock hidentity

/-- A step that leaves the lists, and lets every terminal that is waited for be live or dead. -/
theorem Guarded.step (hawaits : ∀ w ∈ watches, ∀ decoder, w.startup = some decoder →
      s.Live w ∨ s.Dead w decoder → t.Live w ∨ t.Dead w decoder)
    (hown : ∀ id stored, t.registry.registrations.lookup id = some stored → s.Owned watches streams stored) :
    t.Guarded watches streams where
  awaits w hw decoder hstart := hawaits w hw decoder hstart (h.awaits w hw decoder hstart)
  identities := h.identities
  fresh w hw := (h.fresh w hw).trans_le hidentity
  nodup := by rw [hback]; exact h.nodup
  used := by rw [hback, hsock]; exact h.used
  owned id stored hsto :=
    { used := by rw [hsock]; exact (hown id stored hsto).used
      free := by rw [hback]; exact (hown id stored hsto).free
      watch := (hown id stored hsto).watch }

/-- The fields of the router, the clock and the notices do not matter. -/
theorem Guarded.same (hreg : t.registry = s.registry) (hsocks : t.sockets = s.sockets) :
    t.Guarded watches streams := by
  refine h.step hback hsock hidentity (fun w _ decoder _ hw => ?_) fun id stored hsto => ?_
  · rcases hw with ⟨stored, hlive⟩ | ⟨hgone, hcl, hspent⟩
    · exact .inl ⟨stored, hreg ▸ hlive⟩
    · exact .inr ⟨hreg ▸ hgone, hsocks ▸ hcl, hsocks ▸ hspent⟩
  · rw [hreg] at hsto
    exact h.owned id stored hsto

end

/-! ### Steps on a socket -/

theorem sockets_setSocket (s : RouterWorld) (stream : Nat) (sock : LocalSocket) :
    (s.setSocket stream sock).sockets stream = sock := by
  exact update_self ..

theorem sockets_setSocket_ne {other : Nat} (s : RouterWorld) (sock : LocalSocket) (h : other ≠ stream) :
    (s.setSocket stream sock).sockets other = s.sockets other := by
  exact update_of_ne h ..

section
variable (h : s.Guarded watches streams)
include h

theorem Guarded.setSocket
    (hdead : ∀ w ∈ watches, ∀ decoder, w.startup = some decoder → w.stream = stream → s.Dead w decoder →
      (s.setSocket stream sock).Dead w decoder) : (s.setSocket stream sock).Guarded watches streams := by
  refine h.step rfl rfl le_rfl (fun w hw decoder hstart => Or.imp_right fun hgone => ?_) h.owned
  by_cases hstr : w.stream = stream
  · exact hdead w hw decoder hstart hstr hgone
  · have hsame := sockets_setSocket_ne s sock hstr
    exact ⟨hgone.gone, hsame ▸ hgone.closed, hsame ▸ hgone.spent⟩

/-- Nothing that is read changes, and what is closed stays closed. -/
theorem Guarded.touchSocket
    (hcl : (s.sockets stream).closed = true → sock.closed = true ∧ sock.incoming = (s.sockets stream).incoming) :
    (s.setSocket stream sock).Guarded watches streams := by
  refine h.setSocket fun w _ decoder _ hstr hdead => ?_
  have hnew : (s.setSocket stream sock).sockets w.stream = sock := hstr ▸ sockets_setSocket s stream sock
  obtain ⟨hgone, hwas, hspent⟩ := hdead
  rw [hstr] at hwas hspent
  obtain ⟨hstill, hbs⟩ := hcl hwas
  have hread := isPacket_readDecoder decoder (s.sockets stream) sock.peer sock.unread
  rw [← hbs, hspent] at hread
  refine ⟨hgone, ?_, ?_⟩
  · rw [hnew]
    exact hstill
  · rw [hnew]
    exact hread

/-- A socket of which nobody waits for a status. -/
theorem Guarded.setOther (hoth : ∀ w ∈ watches, w.startup.isSome → w.stream ≠ stream) :
    (s.setSocket stream sock).Guarded watches streams :=
  h.setSocket fun w hw _ hstart hstr _ => absurd hstr (hoth w hw (by rw [hstart]; rfl))

end

/-! ### Steps on the registry -/

variable {w : WatchedRegistration} {decoder : LocalPacketDecoder} {identity : RegistrationIdentity}
  {userInfo : TerminalUserInfo} {peer : PeerIdentity}

theorem Live.congr (h : s.Live w)
    (hcur : t.registry.current w.identity = s.registry.current w.identity) : t.Live w := by
  rw [Live, hcur]
  exact h

theorem Dead.congr (h : s.Dead w decoder)
    (hcur : t.registry.current w.identity = s.registry.current w.identity) (hsocks : t.sockets = s.sockets) :
    t.Dead w decoder :=
  ⟨hcur.trans h.gone, hsocks ▸ h.closed, hsocks ▸ h.spent⟩

theorem Guarded.remove (h : s.Guarded watches streams) (hoth : ∀ w ∈ watches, s.Live w → w.identity ≠ identity) :
    { s with registry := (s.registry.removeIfCurrent identity s.now).2 }.Guarded watches streams := by
  refine h.step rfl rfl le_rfl (fun w hw decoder _ hwt => ?_) fun id stored hsto => h.owned id stored ?_
  · have hcur := current_removeIfCurrent s.registry identity w.identity s.now
    rcases hwt with hlive | hdead
    · rw [if_neg (hoth w hw hlive)] at hcur
      exact .inl (hlive.congr hcur)
    · rw [hdead.gone, ite_self] at hcur
      exact .inr (hdead.congr (hcur.trans hdead.gone.symm) rfl)
  · exact lookup_of_removeIfCurrent hsto


theorem Guarded.report {result : Except Bytes Unit} (h : s.Guarded watches streams)
    (hoth : ∀ w ∈ watches, w.startup.isSome → w.identity ≠ identity) :
    { s with registry := (s.registry.reportStartup identity result).2 }.Guarded watches streams := by
  refine h.step rfl rfl le_rfl (fun w hw decoder hstart hwt => ?_) fun id stored hsto => ?_
  · have hcur : (s.registry.reportStartup identity result).2.current w.identity = s.registry.current w.identity :=
      current_reportStartup (hoth w hw (by rw [hstart]; rfl))
    exact hwt.imp (fun hlive => hlive.congr hcur) fun hdead => hdead.congr hcur rfl
  · obtain ⟨old, hold, hstr, hinfo⟩ := lookup_of_reportStartup hsto
    have hown := h.owned id old hold
    refine ⟨hstr ▸ hown.used, hstr ▸ hown.free, ?_⟩
    rw [← hstr, ← hinfo]
    exact hown.watch

/-- What `terminal` will be watched with. -/
def watchOf (terminal : RegisteredTerminal) : WatchedRegistration :=
  ⟨terminal.watcher, terminal.identity, RouterPoll.startupWatch terminal⟩

theorem terminalOf_awaited {registration : Registration} {now : Nat}
    (h : (watchOf (terminalOf registration stream)).startup = some decoder) :
    (storedOf registration stream now).awaited = true := by
  rw [watchOf, RouterPoll.startupWatch] at h
  split at h
  next hwt =>
    simp only [terminalOf, Bool.and_eq_true, Bool.not_eq_true'] at hwt
    simp only [StoredRegistration.awaited, storedOf, hwt.1, hwt.2, if_true, Bool.not_false]
  · cases h

theorem closed_of_peerClosed (h : sock.peerClosed = true) : sock.closed = true := by
  cases hpeer : sock.peer with
  | connected =>
    unfold LocalSocket.peerClosed LocalSocket.poll LocalSocket.peek LocalSocket.recvEmpty LocalSocket.closed at h
    split at h <;> simp_all
  | closed => rw [LocalSocket.closed, hpeer]; rfl
  | reset => rw [LocalSocket.closed, hpeer]; rfl

theorem register_error {error : RegistrationError}
    (h : (s.register userInfo stream peer).1 = .error error) : (s.register userInfo stream peer).2 = s.registry := by
  rcases register_spec s.registry userInfo stream peer s.nextIdentity
    (fun stream => (s.sockets stream).peerClosed) s.now with ⟨error', hspec⟩ | ⟨registration, -, -, hspec⟩
  · rw [register, hspec]
  · rw [register, hspec] at h
    cases h

/-- Where the connection moves from the pending ones to the watched terminals. -/
theorem move_perm (backlog streams : List Nat) (stream : Nat) (watched : List Nat) :
    (backlog ++ streams ++ (watched ++ [stream])).Perm (backlog ++ stream :: streams ++ watched) := by
  rw [← append_assoc]
  refine perm_append_comm.trans ?_
  rw [append_assoc backlog (stream :: streams), singleton_append, append_assoc, cons_append]
  exact perm_middle.symm

/-- The state a registration leaves. -/
def withRegistration (s : RouterWorld) (registration : Registration) (stream : Nat) : RouterWorld :=
  { s with
    registry := { s.registry with
      registrations := s.registry.registrations.insert registration.id (storedOf registration stream s.now) }
    nextIdentity := s.nextIdentity + 1 }

theorem register_ok {terminal : RegisteredTerminal} (h : (s.register userInfo stream peer).1 = .ok terminal) :
    ∃ registration, validate userInfo peer s.nextIdentity = .ok registration ∧
      terminal = terminalOf registration stream ∧
      (∀ stored, s.registry.registrations.lookup registration.id = some stored →
        (s.sockets stored.stream).peerClosed = true) ∧
      (s.register userInfo stream peer).2 = (s.withRegistration registration stream).registry := by
  rcases register_spec s.registry userInfo stream peer s.nextIdentity
    (fun stream => (s.sockets stream).peerClosed) s.now with ⟨error, hspec⟩ | ⟨registration, hvd, hcl, hspec⟩
  · rw [register, hspec] at h
    cases h
  · rw [register, hspec] at h ⊢
    cases h
    exact ⟨registration, hvd, rfl, hcl, rfl⟩

section withRegistration
variable {registration : Registration} {stream : Nat} (hidentity : registration.identity = s.nextIdentity)
include hidentity

section
variable {w : WatchedRegistration} (h : s.Guarded watches streams) (hw : w ∈ watches)
include h hw

theorem Guarded.identity_ne : w.identity ≠ registration.toIdentity := by
  intro hsame
  have hlt := h.fresh w hw
  rw [hsame] at hlt
  exact absurd hidentity (Nat.ne_of_lt hlt)

/-- The terminal whose place is taken is dead from then on. -/
theorem Guarded.awaits_registered {decoder : LocalPacketDecoder} (hstart : w.startup = some decoder)
    (hcl : ∀ stored, s.registry.registrations.lookup registration.id = some stored →
      (s.sockets stored.stream).peerClosed = true) (hcare : s.registry.contains w.identity = true →
      (s.withRegistration registration stream).registry.contains w.identity = false →
      (readDecoder decoder (s.sockets w.stream)).1.isPacket = false) :
    (s.withRegistration registration stream).Live w ∨ (s.withRegistration registration stream).Dead w decoder := by
  by_cases hid : w.identity.id = registration.id
  · have hgone : (s.withRegistration registration stream).registry.current w.identity = none := by
      rw [withRegistration, ← hid, current_insert_self]
      exact if_neg (h.identity_ne hidentity hw)
    right
    rcases h.awaits w hw decoder hstart with ⟨stored, hcur, hstr, -⟩ | hdead
    · have hpeer := hcl stored (hid ▸ (RegistryState.current_eq_some.mp hcur).1)
      have hspent := hcare (by rw [RegistryState.contains, hcur]; rfl) (by rw [RegistryState.contains, hgone]; rfl)
      exact ⟨hgone, closed_of_peerClosed (hstr ▸ hpeer), hspent⟩
    · exact { hdead with gone := hgone }
  · have hcur : (s.withRegistration registration stream).registry.current w.identity =
        s.registry.current w.identity := current_insert hid
    exact (h.awaits w hw decoder hstart).imp (fun hlive => hlive.congr hcur) fun hdead => hdead.congr hcur rfl

end

/-- **A registration**: the connection is a terminal now, and it is live. -/
theorem Guarded.withRegistration (h : s.Guarded watches (stream :: streams))
    (hawaits : ∀ w ∈ watches, ∀ decoder, w.startup = some decoder →
      (s.withRegistration registration stream).Live w ∨ (s.withRegistration registration stream).Dead w decoder) :
    (s.withRegistration registration stream).Guarded
      (watches ++ [watchOf (terminalOf registration stream)]) streams := by
  have hperm := move_perm (s.backlog.map (·.1)) streams stream (watches.map (·.stream))
  have hmap : (watches ++ [watchOf (terminalOf registration stream)]).map (·.stream) =
      watches.map (·.stream) ++ [stream] := map_append
  have hnodup := hperm.nodup_iff.mpr h.nodup
  obtain ⟨-, htail, hapart⟩ := nodup_append.mp hnodup
  have hpend : stream ∉ s.backlog.map (·.1) ++ streams := fun hmem =>
    hapart stream hmem stream (mem_append_right _ (mem_singleton_self _)) rfl
  have hwatched : stream ∉ watches.map (·.stream) := fun hmem =>
    (nodup_append.mp htail).2.2 stream hmem stream (mem_singleton_self _) rfl
  refine ⟨fun w hw decoder hstart => ?_, ?_, ?_, ?_, ?_, fun id stored hsto => ?_⟩
  · rcases mem_append.mp hw with hw | hw
    · exact hawaits w hw decoder hstart
    · rw [mem_singleton.mp hw] at hstart ⊢
      refine .inl ⟨storedOf registration stream s.now, ?_, rfl, terminalOf_awaited hstart⟩
      exact (@RegistryState.current_insert_self s.registry registration.toIdentity _).trans (if_pos rfl)
  · rw [map_append, nodup_append]
    refine ⟨h.identities, nodup_singleton _, fun identity hmem other hoth => ?_⟩
    obtain ⟨w, hw, rfl⟩ := mem_map.mp hmem
    rw [mem_singleton.mp hoth]
    exact h.identity_ne hidentity hw
  · exact forall_mem_append.mpr ⟨fun w hw => (h.fresh w hw).trans (Nat.lt_succ_self _),
      forall_mem_singleton.mpr (Nat.lt_succ_of_le hidentity.le)⟩
  · rw [hmap]
    exact hnodup
  · rw [hmap]
    exact fun stream' hmem => h.used stream' (hperm.mem_iff.mp hmem)
  · by_cases hid : id = registration.id
    · rw [hid] at hsto
      cases (AList.lookup_insert _).symm.trans hsto
      exact ⟨h.used stream (by simp), hpend, forall_mem_append.mpr
        ⟨fun w hw hstr => absurd (mem_map.mpr ⟨w, hw, hstr⟩) hwatched, forall_mem_singleton.mpr fun _ => rfl⟩⟩
    · have hown := h.owned id stored ((AList.lookup_insert_ne hid).symm.trans hsto)
      refine ⟨hown.used, fun hmem => hown.free ?_, forall_mem_append.mpr ⟨hown.watch, ?_⟩⟩
      · exact mem_append.mpr ((mem_append.mp hmem).imp_right (mem_cons_of_mem _))
      · exact forall_mem_singleton.mpr fun hstr => absurd (hstr ▸ mem_append_right _ mem_cons_self) hown.free

end withRegistration
variable {e : TerminalEvent}

/-! ### The others -/

theorem guarded_connect (h : s.Guarded watches streams) (peer : PeerIdentity) :
    { s with
      sockets := update s.sockets s.nextSocket .connected
      nextSocket := s.nextSocket + 1
      backlog := s.backlog ++ [(s.nextSocket, peer)] }.Guarded watches streams := by
  have hfresh : s.nextSocket ∉ s.backlog.map (·.1) ++ streams ++ watches.map (·.stream) :=
    fun hmem => Nat.lt_irrefl _ (h.used _ hmem)
  have hperm : ((s.backlog ++ [(s.nextSocket, peer)]).map (·.1) ++ streams ++ watches.map (·.stream)).Perm
      (s.nextSocket :: (s.backlog.map (·.1) ++ streams ++ watches.map (·.stream))) := by
    rw [map_append, append_assoc, append_assoc, append_assoc]
    exact perm_middle
  refine ⟨fun w hw decoder hstart => ?_, h.identities, h.fresh, ?_, fun stream hmem => ?_, fun id stored hsto => ?_⟩
  · refine (h.awaits w hw decoder hstart).imp id fun hdead => ?_
    have hne : w.stream ≠ s.nextSocket := fun heq =>
      hfresh (heq ▸ mem_append_right _ (mem_map_of_mem hw))
    have hsame : update s.sockets s.nextSocket .connected w.stream = s.sockets w.stream :=
      update_of_ne hne ..
    exact ⟨hdead.gone, (congrArg LocalSocket.closed hsame).trans hdead.closed,
      (congrArg (fun sock => (readDecoder decoder sock).1.isPacket) hsame).trans hdead.spent⟩
  · exact hperm.nodup_iff.mpr (nodup_cons.mpr ⟨hfresh, h.nodup⟩)
  · rcases mem_cons.mp (hperm.mem_iff.mp hmem) with rfl | hmem
    · exact Nat.lt_succ_self _
    · exact (h.used stream hmem).trans (Nat.lt_succ_self _)
  · have hown := h.owned id stored hsto
    refine ⟨hown.used.trans (Nat.lt_succ_self _), fun hmem => ?_, hown.watch⟩
    rw [map_append, append_assoc] at hmem
    exact (mem_cons.mp (perm_middle.mem_iff.mp hmem)).elim (Nat.ne_of_lt hown.used) hown.free

/-- **What the others do**: they leave the router's fields and a live registration, and keep the guard. -/
theorem disturb_spec (he : s.disturb e = some t) :
    t.router = s.router ∧ (∀ w, s.Live w → t.Live w) ∧
      ∀ watches streams, s.Guarded watches streams → t.Guarded watches streams := by
  cases e with
  | connect peer =>
    cases he
    exact ⟨rfl, fun _ h => h, fun _ _ h => guarded_connect h peer⟩
  | write | close | receive | sessionWrite =>
    rw [disturb] at he
    split at he
    · cases he
    next hopen =>
      cases he
      exact ⟨rfl, fun _ h => h, fun _ _ h => h.touchSocket fun hcl => absurd hcl hopen⟩
  | sessionRead identity len =>
    obtain ⟨stored, hcur, he⟩ := Option.bind_eq_some_iff.mp he
    split at he
    · cases he
    cases he
    have hsto := RegistryState.current_eq_some.mp hcur
    refine ⟨rfl, fun _ h => h, fun _ _ h => h.setSocket fun w hw decoder _ hstr hdead => ?_⟩
    -- the terminal that is read from is registered
    have hgone := hdead.gone
    rw [(h.owned _ stored hsto.1).watch w hw hstr, hsto.2, hcur] at hgone
    cases hgone
  | removeIfCurrent identity =>
    rw [disturb] at he
    split at he
    · cases he
    rename_i hset
    cases he
    have hne : ∀ w, s.Live w → w.identity ≠ identity := by
      rintro w ⟨stored, hcur, -, hawaited⟩ rfl
      rw [hcur] at hset
      exact hset hawaited
    refine ⟨rfl, fun w h => h.congr ?_, fun _ _ h => h.remove fun w _ => hne w⟩
    rw [current_removeIfCurrent, if_neg (hne w h)]
  | tick elapsed =>
    cases he
    exact ⟨rfl, fun _ h => h, fun _ _ h => h.same rfl rfl le_rfl rfl rfl⟩

end RouterWorld

/-! ### The router's lists -/

theorem swapRemove_perm (h : l[index]? = some a) :
    (a :: swapRemove l index).Perm l := by
  obtain ⟨hlt, rfl⟩ := List.getElem?_eq_some_iff.mp h
  obtain ⟨init, last, rfl⟩ : ∃ init last, l = init ++ [last] :=
    ⟨l.dropLast, l.getLast (ne_nil_of_length_pos (by omega)), (dropLast_append_getLast _).symm⟩
  rw [swapRemove, List.getLast?_concat]
  dsimp only
  rw [length_append, length_singleton] at hlt
  by_cases hlast : index = init.length
  · subst hlast
    simpa using (perm_append_singleton last init).symm
  have hidx : index < init.length := by omega
  rw [set_append_left _ _ hidx, dropLast_concat, getElem_append_left hidx]
  have hset : (init.set index last).Perm (last :: init.eraseIdx index) := set_perm_cons_eraseIdx hidx last
  have hcut : init.Perm (init[index] :: init.eraseIdx index) := (getElem_cons_eraseIdx_perm hidx).symm
  refine ((hset.cons init[index]).trans (List.Perm.swap last _ _)).trans ?_
  exact (hcut.symm.cons last).trans (perm_append_singleton last init).symm

theorem length_swapRemove (l : List α) (index : Nat) : (swapRemove l index).length = l.length - 1 := by
  rw [swapRemove]
  split
  next hnone =>
    rw [List.getLast?_eq_none_iff.mp hnone]
    rfl
  · rw [length_dropLast, length_set]

/-- The others in a list without duplicates. -/
theorem mem_set_other {b : α} (hnodup : (l.map f).Nodup)
    (ha : l[index]? = some a) (hb : b ∈ l.set index a') : b = a' ∨ f b ≠ f a := by
  obtain ⟨j, hj⟩ := mem_iff_getElem?.mp hb
  rw [List.getElem?_set] at hj
  split at hj
  · split at hj
    · exact .inl (Option.some.inj hj).symm
    · cases hj
  rename_i hne
  refine .inr fun heq => hne ?_
  have hlt := (List.getElem?_eq_some_iff.mp ha).1
  refine (List.getElem?_inj (by rwa [length_map]) hnodup).mp ?_
  rw [List.getElem?_map, List.getElem?_map, ha, hj, Option.map_some, Option.map_some, heq]

theorem map_set_same (ha : l[index]? = some a) (hf : f a' = f a) : (l.set index a').map f = l.map f := by
  obtain ⟨hlt, rfl⟩ := List.getElem?_eq_some_iff.mp ha
  rw [map_set, hf, ← getElem_map f (h := by rwa [length_map]), set_getElem_self]

namespace RouterWorld
variable {s t : RouterWorld} {watches watches' : List WatchedRegistration} {streams streams' : List Nat}
variable {router : RouterPoll} {P : RouterWorld → Prop}

section
variable (h : s.Guarded watches streams)
include h

/-- Connections move within the router's lists, and some of them and of the terminals are let go. -/
theorem Guarded.fewer {backlog : List (Nat × PeerIdentity)} (hwat : watches' ⊆ watches)
    (hstrs : backlog.map (·.1) ++ streams' ⊆ s.backlog.map (·.1) ++ streams)
    (hidentities : (watches'.map (·.identity)).Nodup)
    (hnodup : (backlog.map (·.1) ++ streams' ++ watches'.map (·.stream)).Nodup) :
    { s with backlog }.Guarded watches' streams' := by
  refine ⟨fun w hw decoder hstart => (h.awaits w (hwat hw) decoder hstart).imp id fun hdead => { hdead with },
    hidentities, fun w hw => h.fresh w (hwat hw), hnodup, fun stream hmem => h.used stream ?_, fun id stored hsto => ?_⟩
  · exact mem_append.mpr ((mem_append.mp hmem).imp (hstrs ·) (map_subset _ hwat ·))
  · have hown := h.owned id stored hsto
    exact ⟨hown.used, fun hmem => hown.free (hstrs hmem), fun w hw => hown.watch w (hwat hw)⟩

theorem Guarded.perm (hwat : watches'.Perm watches) (hstrs : streams'.Perm streams) : s.Guarded watches' streams' :=
  have hboth := hstrs.append_left (s.backlog.map (·.1))
  h.fewer hwat.subset hboth.subset ((hwat.map _).nodup_iff.mpr h.identities)
    ((hboth.append (hwat.map _)).nodup_iff.mpr h.nodup)

theorem Guarded.sublist (hwat : watches'.Sublist watches) (hstrs : streams'.Sublist streams) :
    s.Guarded watches' streams' :=
  have hboth := (List.Sublist.refl (s.backlog.map (·.1))).append hstrs
  h.fewer hwat.subset hboth.subset (h.identities.sublist (hwat.map _)) (h.nodup.sublist (hboth.append (hwat.map _)))

end

variable {w : WatchedRegistration} {stream : Nat}

section
variable (h : s.Guarded watches streams)
include h

/-- The decoder of a watched terminal changes, or is not needed any more. -/
theorem Guarded.setStartup {index : Nat} {startup : Option LocalPacketDecoder} (hw : watches[index]? = some w)
    (hnew : ∀ decoder, startup = some decoder → s.Live w ∨ s.Dead w decoder) :
    s.Guarded (watches.set index { w with startup }) streams := by
  have hidentities : (watches.set index { w with startup }).map (·.identity) = watches.map (·.identity) :=
    map_set_same hw rfl
  have hstrs : (watches.set index { w with startup }).map (·.stream) = watches.map (·.stream) :=
    map_set_same hw rfl
  have hmem : ∀ w' ∈ watches.set index { w with startup },
      w' = { w with startup } ∨ w' ∈ watches := fun w' hw' => (mem_or_eq_of_mem_set hw').symm
  have hold := mem_of_getElem? hw
  refine ⟨fun w' hw' decoder hstart => ?_, hidentities ▸ h.identities, fun w' hw' => ?_, ?_, ?_,
    fun id stored hsto => ?_⟩
  · rcases hmem w' hw' with rfl | hw'
    · exact (hnew decoder hstart).imp id fun hdead => { hdead with }
    · exact h.awaits w' hw' decoder hstart
  · rcases hmem w' hw' with rfl | hw'
    · exact h.fresh w hold
    · exact h.fresh w' hw'
  · rw [hstrs]
    exact h.nodup
  · rw [hstrs]
    exact h.used
  · have hown := h.owned id stored hsto
    refine ⟨hown.used, hown.free, fun w' hw' => ?_⟩
    rcases hmem w' hw' with rfl | hw'
    · exact hown.watch w hold
    · exact hown.watch w' hw'

theorem Guarded.streams_nodup : (watches.map (·.stream)).Nodup :=
  (nodup_append.mp h.nodup).2.1

theorem Guarded.stream_ne (hstr : stream ∈ streams) (hw : w ∈ watches) : w.stream ≠ stream := fun heq =>
  (nodup_append.mp h.nodup).2.2 stream (mem_append_right _ hstr) w.stream (mem_map_of_mem hw) heq.symm

end

/-! ### Programs -/

/-- What the others do not take away. -/
def Stable (P : RouterWorld → Prop) : Prop := ∀ s t, Disturbs s t → P s → P t

theorem Stable.rely (hP : Stable P) (hmove : carefulWorld.rely s t) (h : P s) : P t := by
  induction hmove with
  | refl => exact h
  | tail _ hstep ih => exact hP _ _ hstep ih

theorem Stable.and {Q : RouterWorld → Prop} (hP : Stable P) (hQ : Stable Q) : Stable fun s => P s ∧ Q s :=
  fun s t hstep h => ⟨hP s t hstep h.1, hQ s t hstep h.2⟩

theorem stable_live (w : WatchedRegistration) : Stable (·.Live w) := fun _ _ ⟨_, he⟩ => (disturb_spec he).2.1 w

/-- The fields of the router are `router`, and it watches `watches` and has `streams` besides. -/
structure Holds (router : RouterPoll) (watches : List WatchedRegistration) (streams : List Nat) (s : RouterWorld) :
    Prop where
  router : s.router = router
  guarded : s.Guarded watches streams

theorem stable_holds (router : RouterPoll) (watches : List WatchedRegistration) (streams : List Nat) :
    Stable (Holds router watches streams) := fun _ _ ⟨_, he⟩ h =>
  ⟨(disturb_spec he).1.trans h.router, (disturb_spec he).2.2 _ _ h.guarded⟩

/-- Between two steps of `service`. -/
def Ready (router : RouterPoll) (s : RouterWorld) : Prop :=
  Holds router router.watched (router.pending.map (·.stream)) s

theorem stable_ready (router : RouterPoll) : Stable (Ready router) := stable_holds _ _ _

/-- In every run from `s`, the call ends without an error, and with `post`. -/
def Serves {α : Type} (p : RouterCall α) (post : α → RouterWorld → Prop) (s : RouterWorld) : Prop :=
  p.Meets carefulWorld (fun _ => True) (fun r s => ∃ a, r = .ok a ∧ post a s) s

variable {α β : Type} {post post' : α → RouterWorld → Prop}

theorem serves_ret {a : α} (h : post a s) : Serves (.ret (.ok a)) post s := ⟨trivial, a, rfl, h⟩

theorem Serves.mono {p : RouterCall α} (h : Serves p post s) (hpost : ∀ a s, post a s → post' a s) :
    Serves p post' s :=
  Meets.mono h (fun _ h => h) fun _ s _ ⟨a, ha, h⟩ => ⟨a, ha, hpost a s h⟩

theorem Serves.andThen {p : RouterCall α} {f : α → RouterCall β} {post : β → RouterWorld → Prop}
    (h : Serves p (fun a s => Serves (f a) post s) s) : Serves (p.andThen f) post s := by
  refine Meets.bind (Meets.mono h (fun _ h => h) ?_)
  rintro _ s - ⟨a, rfl, hserves⟩
  exact hserves

/-- A call of an operation, where `P` holds until it is answered. -/
theorem serves_call {op : RouterOp} {next : op.Res → RouterCall α} (hP : Stable P) (h : P s)
    (hnext : ∀ t, P t → t.careful op = true → ∀ r ∈ t.answers op, Serves (next r.1) post r.2) :
    Serves (.call op next) post s := by
  refine ⟨trivial, fun t ht r hr => ?_⟩
  have hr : r ∈ if t.careful op then t.answers op else [] := hr
  split at hr
  next hcare =>
    exact hnext t (hP.rely ht h) hcare r hr
  · cases hr

theorem serves_store {next : Unit → RouterCall α} (hP : Stable P)
    (h : P s) (hnext : ∀ t, P t → Serves (next ()) post { t with router }) :
    Serves (.call (.store router) next) post s :=
  serves_call hP h fun t ht _ r hr => by
    rw [mem_singleton.mp hr]
    exact hnext t ht

theorem serves_emit {notice : RouterNotice} {next : Unit → RouterCall α} (h : Holds router watches streams s)
    (hnext : ∀ t, Holds router watches streams t → Serves (next ()) post t) :
    Serves (.call (.emit notice) next) post s :=
  serves_call (stable_holds _ _ _) h fun t ht _ r hr => by
    rw [mem_singleton.mp hr]
    exact hnext _ ⟨ht.router, ht.guarded.same rfl rfl le_rfl rfl rfl⟩

theorem Holds.store {router' : RouterPoll} (h : Holds router watches streams s) :
    Holds router' watches streams { s with router := router' } :=
  ⟨rfl, h.guarded.same rfl rfl le_rfl rfl rfl⟩

theorem serves_remove {identity : RegistrationIdentity} {next : Bool → RouterCall α}
    (h : Holds router watches streams s) (hoth : ∀ w ∈ watches, w.identity ≠ identity)
    (hnext : ∀ removed t, Holds router watches streams t → Serves (next removed) post t) :
    Serves (.call (.removeIfCurrent identity) next) post s :=
  serves_call (stable_holds _ _ _) h fun t ht _ r hr => by
    rw [mem_singleton.mp hr]
    exact hnext _ _ ⟨ht.router, ht.guarded.remove fun w hw _ => hoth w hw⟩

theorem serves_write {packet : Packet} {next : Bool → RouterCall α} (h : Holds router watches streams s)
    (hnext : ∀ written t, Holds router watches streams t → Serves (next written) post t) :
    Serves (.call (.write stream packet) next) post s :=
  serves_call (stable_holds _ _ _) h fun t ht _ r hr => by
    rcases mem_append.mp hr with hr | hr
    · split at hr
      · cases hr
      next hopen =>
        rw [mem_singleton.mp hr]
        exact hnext _ _ ⟨ht.router, ht.guarded.touchSocket fun hcl => absurd hcl hopen⟩
    · rw [mem_singleton.mp hr]
      exact hnext _ _ ht

end RouterWorld

end EternalTerminal
