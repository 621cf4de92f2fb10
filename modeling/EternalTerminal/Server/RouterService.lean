import EternalTerminal.Server.RouterGuard

/-!
# Server — a round of the router ends

`service` among terminals and sessions that do what they like: no index is out of range, no status is reported for a
registration that is gone, and the guard of `RouterGuard` holds again at the end.

Main results: `router_keeps_running`, `router_stops_on_late_status`.
-/

namespace EternalTerminal
open Program RouterWorld List

variable {s : RouterWorld} {router : RouterPoll} {watches : List WatchedRegistration} {streams : List Nat}

theorem StoredRegistration.pending_of_awaited {stored : StoredRegistration} (h : stored.awaited = true) :
    stored.startup = .pending := by
  unfold awaited at h
  split at h
  · assumption
  · cases h

theorem closed_peek {sock : LocalSocket} (h : sock.closed = true) :
    sock.peek.2.closed = true ∧ sock.peek.2.incoming = sock.incoming := by
  unfold LocalSocket.peek
  split
  · refine ⟨(closed_recvEmpty sock).trans h, ?_⟩
    unfold LocalSocket.recvEmpty
    split <;> rfl
  · exact ⟨h, rfl⟩

/-- The first connection of the backlog is accepted. -/
theorem RouterWorld.Guarded.accept {connection : Nat × PeerIdentity} {backlog : List (Nat × PeerIdentity)}
    (h : s.Guarded watches streams) (hback : s.backlog = connection :: backlog) :
    { s with backlog }.Guarded watches (streams ++ [connection.1]) := by
  have hperm : (backlog.map (·.1) ++ (streams ++ [connection.1])).Perm (s.backlog.map (·.1) ++ streams) := by
    rw [hback, map_cons, cons_append, ← append_assoc]
    exact perm_append_singleton _ _
  exact h.fewer (List.Subset.refl _) hperm.subset h.identities ((hperm.append_right _).nodup_iff.mpr h.nodup)

namespace RouterPoll
variable {index : Nat} {decoder : LocalPacketDecoder} {w : WatchedRegistration}

/-! ### The watched terminals -/

/-- What the loop over the watched terminals leaves, when the indices below `index` are to come. -/
structure WatchesServed (router : RouterPoll) (index : Nat) (router' : RouterPoll) (s : RouterWorld) : Prop where
  ready : Ready router' s
  pending : router'.pending = router.pending
  length : index ≤ router'.watched.length

theorem serves_disconnectWatched (h : Ready router s) (hidx : index < router.watched.length) :
    Serves (router.disconnectWatched index) (WatchesServed router index) s := by
  have hw : router.watched[index]? = some router.watched[index] := List.getElem?_eq_getElem hidx
  rw [disconnectWatched, hw]
  have hdone : ∀ u, Ready { router with watched := swapRemove router.watched index } u →
      WatchesServed router index { router with watched := swapRemove router.watched index } u := by
    refine fun u hu => ⟨hu, rfl, ?_⟩
    rw [length_swapRemove]
    omega
  refine serves_store (stable_ready router) h fun t ht => ?_
  have hcut : t.Guarded (router.watched[index] :: swapRemove router.watched index) _ :=
    ht.guarded.perm (swapRemove_perm hw) (List.Perm.refl _)
  have hoth : ∀ w ∈ swapRemove router.watched index, w.identity ≠ router.watched[index].identity := fun w hmem heq =>
    (nodup_cons.mp hcut.identities).1 (mem_map.mpr ⟨w, hmem, heq⟩)
  have hrest := hcut.sublist (sublist_cons_self _ _) (List.Sublist.refl _)
  refine serves_remove (Holds.store ⟨ht.router, hrest⟩) hoth fun removed t ht => ?_
  cases removed with
  | false => exact serves_ret (hdone t ht)
  | true =>
    refine serves_emit ht fun t ht => ?_
    split
    · exact serves_emit ht fun t ht => serves_ret (hdone t ht)
    · exact serves_ret (hdone t ht)

variable (fromUtf8Lossy : Bytes → Bytes)

section
variable (h : s.Guarded watches streams)
include h

/-- A read from a watched terminal, as if its status were settled. -/
theorem guarded_read {sock : LocalSocket} (hw : watches[index]? = some w) :
    (s.setSocket w.stream sock).Guarded (watches.set index { w with startup := none }) streams := by
  have hset : s.Guarded (watches.set index { w with startup := none }) streams := h.setStartup hw nofun
  refine hset.setOther fun w' hw' hstart => ?_
  rcases mem_set_other h.streams_nodup hw hw' with rfl | hne
  · cases hstart
  · exact hne

/-- The terminal whose decoder has a packet is live. -/
theorem live_of_packet (hw : w ∈ watches) (hstart : w.startup = some decoder)
    (hpkt : (readDecoder decoder (s.sockets w.stream)).1.isPacket = true) : s.Live w := by
  rcases h.awaits w hw decoder hstart with hlive | hdead
  · exact hlive
  · rw [hdead.spent] at hpkt
    cases hpkt

/-- A terminal that sent only a part of its status is waited for as before. -/
theorem guarded_pending (hw : watches[index]? = some w) (hstart : w.startup = some decoder)
    (hpend : (readDecoder decoder (s.sockets w.stream)).1 = .pending) :
    (s.setSocket w.stream (readDecoder decoder (s.sockets w.stream)).2.2).Guarded
      (watches.set index { w with startup := some (readDecoder decoder (s.sockets w.stream)).2.1 }) streams := by
  have hlt := (List.getElem?_eq_some_iff.mp hw).1
  have hset : (watches.set index { w with startup := none })[index]? = some { w with startup := none } :=
    List.getElem?_set_self hlt
  rw [← set_set { w with startup := none }]
  refine Guarded.setStartup (w := { w with startup := none }) (guarded_read h hw) hset fun decoder' hdecoder => ?_
  cases hdecoder
  rcases h.awaits w (mem_of_getElem? hw) decoder hstart with hlive | hdead
  · exact .inl hlive
  · refine .inr ⟨hdead.gone, ?_, ?_⟩
    · show LocalSocket.closed (RouterWorld.sockets _ w.stream) = true
      rw [sockets_setSocket, closed_readDecoder]
      exact hdead.closed
    · show (readDecoder _ (RouterWorld.sockets _ w.stream)).1.isPacket = false
      rw [sockets_setSocket]
      exact isPacket_again hdead.closed hpend

end

theorem serves_report {identity : RegistrationIdentity} {result : Except Bytes Unit} {α : Type}
    {next : Except RegistrationError Unit → RouterCall α} {post : α → RouterWorld → Prop} {P : RouterWorld → Prop}
    (hP : RouterWorld.Stable P) (hP' : P s) (h : Holds router watches streams s)
    (hoth : ∀ w ∈ watches, w.startup.isSome → w.identity ≠ identity)
    (hnext : ∀ t u, P t → Holds router watches streams u →
      Serves (next (t.registry.reportStartup identity result).1) post u) :
    Serves (.call (.reportStartup identity result) next) post s :=
  serves_call (hP.and (stable_holds router watches streams)) ⟨hP', h⟩ fun t ht _ r hr => by
    rw [mem_singleton.mp hr]
    exact hnext t _ ht.1 ⟨ht.2.router, ht.2.guarded.report hoth⟩

/-- **Reading a startup status**: a packet is read only from a terminal that is live, so its status is taken. -/
theorem serves_readStartup (h : Ready router s)
    (hw : router.watched[index]? = some w) (hstart : w.startup = some decoder) :
    Serves (readStartup fromUtf8Lossy router index w decoder) (WatchesServed router (index + 1)) s := by
  have hlt := (List.getElem?_eq_some_iff.mp hw).1
  refine serves_call (stable_ready router) h fun t ht _ r hr => ?_
  obtain ⟨outcome, decoder', sock, hread⟩ : ∃ outcome decoder' sock,
      readDecoder decoder (t.sockets w.stream) = (outcome, decoder', sock) := ⟨_, _, _, rfl⟩
  simp only [answers, hread, mem_singleton] at hr
  subst hr
  have hsettled : (t.setSocket w.stream sock).Guarded _ _ := guarded_read ht.guarded hw
  have hothers : ∀ w' ∈ router.watched.set index { w with startup := none }, w'.startup.isSome →
      w'.identity ≠ w.identity := fun w' hw' hsome =>
    (mem_set_other ht.guarded.identities hw hw').resolve_left fun heq => by
      rw [heq] at hsome
      cases hsome
  -- the end of the two cases that settle the status
  have hset : ((router.withStartup index w (some decoder')).withStartup index w none).watched =
      router.watched.set index { w with startup := none } := set_set ..
  have hdone : ∀ u, Holds (router.withStartup index w (some decoder'))
        (router.watched.set index { w with startup := none }) (router.pending.map (·.stream)) u →
      Serves (.call (.store ((router.withStartup index w (some decoder')).withStartup index w none)) fun _ =>
        .ret (.ok ((router.withStartup index w (some decoder')).withStartup index w none)))
        (WatchesServed router (index + 1)) u := fun u hu =>
    serves_store (stable_holds _ _ _) hu fun v hv => serves_ret
      { ready := by
          rw [Ready, hset]
          exact hv.store
        pending := rfl
        length := by
          rw [hset, length_set]
          exact hlt }
  cases outcome with
  | pending =>
    have hkept := guarded_pending ht.guarded hw hstart (congrArg Prod.fst hread)
    rw [hread] at hkept
    refine serves_store (stable_holds _ _ _) ⟨ht.router, hkept⟩ fun u hu => serves_ret ⟨hu.store, rfl, ?_⟩
    show index + 1 ≤ (router.watched.set index _).length
    rw [length_set]
    exact hlt
  | reject =>
    refine serves_store (stable_holds _ _ _) ⟨ht.router, hsettled⟩ fun u hu => ?_
    exact serves_report (P := fun _ => True) (fun _ _ _ h => h) trivial hu.store hothers fun _ v _ hv => hdone v hv
  | packet packet =>
    have hlive : t.Live w := live_of_packet ht.guarded (mem_of_getElem? hw) hstart (by rw [hread]; rfl)
    refine serves_store ((stable_live w).and (stable_holds _ _ _)) ⟨hlive, ⟨ht.router, hsettled⟩⟩ fun u hu => ?_
    refine serves_report (stable_live w) hu.1 hu.2.store hothers fun t v ⟨stored, hcur, _, hawaited⟩ hv => ?_
    rw [RegistryState.reportStartup_pending hcur (StoredRegistration.pending_of_awaited hawaited)]
    exact hdone v hv

theorem serves_serviceWatchedAt (readiness : List PollFlags) (h : Ready router s)
    (hidx : index < router.watched.length) :
    Serves (serviceWatchedAt fromUtf8Lossy readiness index router) (WatchesServed router index) s := by
  have hw : router.watched[index]? = some router.watched[index] := List.getElem?_eq_getElem hidx
  rw [serviceWatchedAt, hw]
  have hunread : Serves (.ret (.ok router)) (WatchesServed router (index + 1)) s := serves_ret ⟨h, rfl, hidx⟩
  refine Serves.andThen (Serves.mono (?_ : Serves _ (WatchesServed router (index + 1)) s) fun router' t ht => ?_)
  · split
    next decoder hstart =>
      split
      · exact serves_readStartup fromUtf8Lossy h hw hstart
      · exact hunread
    · exact hunread
  · split
    · refine (serves_disconnectWatched ht.ready ht.length).mono fun router'' u hu => ?_
      exact ⟨hu.ready, hu.pending.trans ht.pending, hu.length⟩
    · exact serves_ret { ht with length := Nat.le_of_succ_le ht.length }

/-- The loop over the watched terminals, by induction on the index. -/
theorem serves_serviceWatched (readiness : List PollFlags) (index : Nat) (h : Ready router s)
    (hidx : index ≤ router.watched.length) :
    Serves (serviceWatched fromUtf8Lossy readiness index router) (WatchesServed router 0) s := by
  induction index generalizing router s with
  | zero => exact serves_ret ⟨h, rfl, Nat.zero_le _⟩
  | succ index ih =>
    refine Serves.andThen ((serves_serviceWatchedAt fromUtf8Lossy readiness h hidx).mono fun router' t ht => ?_)
    refine (ih ht.ready ht.length).mono fun router'' u hu => ?_
    exact ⟨hu.ready, hu.pending.trans ht.pending, Nat.zero_le _⟩

/-- The probes at the start of a round. -/
theorem probes_probeWatched (readiness : List PollFlags) (watched : List WatchedRegistration) (h : Ready router s) :
    (probeWatched readiness watched).Meets carefulWorld (fun _ => True) (fun _ s => Ready router s) s := by
  induction readiness generalizing watched s with
  | nil => exact ⟨trivial, h⟩
  | cons flags readiness ih =>
    cases watched with
    | nil => exact ⟨trivial, h⟩
    | cons w watched =>
      refine ⟨trivial, fun t ht r hr => ?_⟩
      have ht := (stable_ready router).rely ht h
      rw [mem_singleton.mp hr]
      refine Meets.bind (Meets.mono (ih watched ⟨ht.router, ht.guarded.touchSocket fun hcl => ?_⟩)
        (fun _ h => h) fun _ _ _ h => ⟨trivial, h⟩)
      exact closed_peek hcl

/-! ### The connections -/

theorem serves_acceptReady (room : Nat) (h : Ready router s) :
    Serves (acceptReady room router)
      (fun router' s => Ready router' s ∧ router.pending.length ≤ router'.pending.length) s := by
  induction room generalizing router s with
  | zero => exact serves_ret ⟨h, le_rfl⟩
  | succ room ih =>
    refine serves_call (stable_ready router) h fun t ht _ r hr => ?_
    cases hback : t.backlog with
    | nil =>
      simp only [answers, hback, mem_singleton] at hr
      subst hr
      exact serves_ret ⟨ht, le_rfl⟩
    | cons connection backlog =>
      simp only [answers, hback, mem_cons, not_mem_nil, or_false] at hr
      rcases hr with rfl | rfl
      · have hacc := ht.guarded.accept hback
        refine serves_call (stable_holds _ _ _) ⟨ht.router, hacc⟩ fun t ht _ r hr => ?_
        rw [mem_singleton.mp hr]
        refine serves_store (stable_holds _ _ _) ht fun t ht => ?_
        refine (ih ?_).mono fun router' u hu => ⟨hu.1, le_trans ?_ hu.2⟩
        · rw [Ready, map_append]
          exact ht.store
        · rw [length_append]
          exact Nat.le_add_right _ _
      · exact serves_ret ⟨ht, le_rfl⟩

theorem serves_acknowledge (terminal : RegisteredTerminal)
    (h : Holds router (router.watched ++ [watchOf terminal]) (router.pending.map (·.stream)) s) :
    Serves (acknowledge terminal)
      (fun result s => match result with
        | some terminal => Holds router (router.watched ++ [watchOf terminal]) (router.pending.map (·.stream)) s
        | none => Ready router s) s := by
  rw [acknowledge]
  split
  · refine serves_write h fun written t ht => ?_
    cases written with
    | true => exact serves_ret ht
    | false =>
      have hidentities := ht.guarded.identities
      rw [map_append, nodup_append] at hidentities
      have hrest := ht.guarded.sublist (sublist_append_left _ _) (List.Sublist.refl _)
      refine serves_remove ⟨ht.router, hrest⟩ (fun w hw => ?_) fun removed t ht => ?_
      · exact hidentities.2.2 _ (mem_map_of_mem hw) _ (mem_singleton_self _)
      · exact serves_emit ht fun t ht => serves_ret ht
  · exact serves_ret h

/-- **Completing a registration**: the terminal is one to be watched, or the connection is dropped. -/
theorem serves_completeRegistration (connection : PendingConnection) (packet : Packet)
    (h : Holds router router.watched (connection.stream :: router.pending.map (·.stream)) s) :
    Serves (completeRegistration connection packet)
      (fun result s => match result with
        | some terminal => Holds router (router.watched ++ [watchOf terminal]) (router.pending.map (·.stream)) s
        | none => Ready router s) s := by
  have hdrop : ∀ t, Holds router router.watched (connection.stream :: router.pending.map (·.stream)) t →
      Ready router t := fun t ht =>
    ⟨ht.router, ht.guarded.sublist (List.Sublist.refl _) (sublist_cons_self _ _)⟩
  rw [completeRegistration]
  split
  · exact serves_emit h fun t ht => serves_ret (hdrop t ht)
  rename_i userInfo _
  refine serves_call (stable_holds _ _ _) h fun t ht hcare r hr => ?_
  obtain ⟨result, registry, hregister⟩ : ∃ result registry,
      t.register userInfo connection.stream connection.peer = (result, registry) := ⟨_, _, rfl⟩
  simp only [answers, hregister, mem_singleton] at hr
  subst hr
  cases result with
  | error error =>
    have hreg := register_error (congrArg Prod.fst hregister)
    rw [hregister] at hreg
    subst hreg
    have ht' := ht.guarded.same (t := { t with nextIdentity := t.nextIdentity + 1 }) rfl rfl (Nat.le_succ _) rfl rfl
    dsimp only
    split
    · refine serves_write ⟨ht.router, ht'⟩ fun _ t ht => ?_
      exact serves_emit ht fun t ht => serves_ret (hdrop t ht)
    · exact serves_emit ⟨ht.router, ht'⟩ fun t ht => serves_ret (hdrop t ht)
  | ok terminal =>
    obtain ⟨registration, hvd, rfl, hcl, hreg⟩ := register_ok (congrArg Prod.fst hregister)
    have hid := validate_identity hvd
    have hreg' := hreg
    rw [hregister] at hreg'
    subst hreg'
    refine serves_acknowledge _ ⟨ht.router, ht.guarded.withRegistration hid fun w hw decoder hstart => ?_⟩
    refine ht.guarded.awaits_registered hid hw hstart hcl fun hbef haft => ?_
    have hreplaced : w ∈ t.replaced userInfo connection.stream connection.peer := by
      rw [replaced, mem_filter, hreg, ht.router, hbef, haft]
      exact ⟨hw, rfl⟩
    have hleaves := all_eq_true.mp hcare w hreplaced
    rw [leavesStatus, hstart] at hleaves
    simpa using hleaves

theorem serves_watch (terminal : RegisteredTerminal)
    (h : Holds router (router.watched ++ [watchOf terminal]) (router.pending.map (·.stream)) s) :
    Serves (watch router terminal) (fun router' s => Ready router' s ∧ router'.pending = router.pending) s := by
  refine serves_store (stable_holds _ _ _) h fun t ht => ?_
  refine serves_emit ht.store fun t ht => ?_
  split
  · exact serves_emit ht fun t ht => serves_ret ⟨ht, rfl⟩
  · exact serves_ret ⟨ht, rfl⟩

/-- One connection that poll reported. -/
theorem serves_serviceReadyAt (h : Ready router s) (hidx : index < router.pending.length) :
    Serves (serviceReadyAt index router)
      (fun router' s => Ready router' s ∧ index ≤ router'.pending.length) s := by
  have hconn : router.pending[index]? = some router.pending[index] := List.getElem?_eq_getElem hidx
  rw [serviceReadyAt, hconn]
  refine serves_call (stable_ready router) h fun t ht _ r hr => ?_
  obtain ⟨outcome, decoder, sock, hread⟩ : ∃ outcome decoder sock, readDecoder router.pending[index].decoder
      (t.sockets router.pending[index].stream) = (outcome, decoder, sock) := ⟨_, _, _, rfl⟩
  simp only [answers, hread, mem_singleton] at hr
  subst hr
  have hmem : router.pending[index].stream ∈ router.pending.map (·.stream) :=
    mem_map_of_mem (getElem_mem hidx)
  have hkept : (t.setSocket router.pending[index].stream sock).Guarded _ _ :=
    ht.guarded.setOther fun w hw _ => ht.guarded.stream_ne hmem hw
  have hperm : (router.pending[index].stream :: (swapRemove router.pending index).map (·.stream)).Perm
      (router.pending.map (·.stream)) := (swapRemove_perm hconn).map PendingConnection.stream
  have hcut := hkept.perm (List.Perm.refl _) hperm
  have hlen : index ≤ (swapRemove router.pending index).length := by
    rw [length_swapRemove]
    omega
  cases outcome with
  | pending =>
    have hstrs : (router.pending.set index { router.pending[index] with decoder }).map (·.stream) =
        router.pending.map (·.stream) := map_set_same hconn rfl
    refine serves_store (stable_holds _ _ _) ⟨ht.router, hkept⟩ fun u hu => serves_ret ⟨⟨rfl, ?_⟩, ?_⟩
    · show RouterWorld.Guarded _ router.watched ((router.pending.set index _).map (·.stream))
      rw [hstrs]
      exact hu.store.guarded
    · rw [length_set]
      exact hidx.le
  | reject =>
    refine serves_store (stable_holds _ _ _) ⟨ht.router, hcut⟩ fun u hu => ?_
    have hrest := hu.guarded.sublist (List.Sublist.refl _) (sublist_cons_self _ _)
    exact serves_emit (Holds.store ⟨hu.router, hrest⟩) fun u hu => serves_ret ⟨hu, hlen⟩
  | packet packet =>
    refine serves_store (stable_holds _ _ _) ⟨ht.router, hcut⟩ fun u hu => ?_
    have hheld : Holds { router with pending := swapRemove router.pending index } router.watched _ _ := hu.store
    refine Serves.andThen ((serves_completeRegistration _ packet hheld).mono fun result u hu => ?_)
    cases result with
    | none => exact serves_ret ⟨hu, hlen⟩
    | some terminal =>
      refine (serves_watch terminal hu).mono fun router' u hu => ⟨hu.1, ?_⟩
      rw [hu.2]
      exact hlen

/-- The loop over the connections: it takes the last one first, so that no index is out of range. -/
theorem serves_serviceReady (indices : List Nat) (h : Ready router s) (hsorted : indices.Pairwise (· > ·))
    (hbd : ∀ index ∈ indices, index < router.pending.length) :
    Serves (serviceReady indices router) Ready s := by
  induction indices generalizing router s with
  | nil => exact serves_ret h
  | cons index rest ih =>
    obtain ⟨hfst, hrest⟩ := pairwise_cons.mp hsorted
    refine Serves.andThen ((serves_serviceReadyAt h (hbd index mem_cons_self)).mono fun router' t ht => ?_)
    exact ih ht.1 hrest fun j hj => (hfst j hj).trans_le ht.2

theorem readyPending_sorted (readiness : List PollFlags) : (readyPending readiness).Pairwise (· > ·) := by
  rw [readyPending, pairwise_reverse]
  exact pairwise_lt_range.filter _

theorem readyPending_lt {readiness : List PollFlags} (h : index ∈ readyPending readiness) :
    index < readiness.length := by
  rw [readyPending, mem_reverse, mem_filter, mem_range] at h
  exact h.1

/-- **A round of the router** ends without an error. -/
theorem serves_service (readiness : List PollFlags) (h : Ready router s)
    (hlen : 1 + router.pending.length ≤ readiness.length) :
    Serves (router.service fromUtf8Lossy readiness) (fun _ s => Ready s.router s) s := by
  rw [service, if_neg (Nat.not_lt.mpr hlen)]
  refine Meets.bind (Meets.mono (probes_probeWatched _ _ h) (fun _ h => h) fun flags s _ h => ?_)
  refine Serves.andThen ((serves_serviceWatched fromUtf8Lossy flags _ h le_rfl).mono fun router₁ s h₁ => ?_)
  have hacc : Serves (if (readiness.headD {}).input then
        acceptReady (maxPendingRegistrations - router₁.pending.length) router₁ else .ret (.ok router₁))
      (fun router' s => Ready router' s ∧ router₁.pending.length ≤ router'.pending.length) s := by
    split
    · exact serves_acceptReady _ h₁.ready
    · exact serves_ret ⟨h₁.ready, le_rfl⟩
  refine Serves.andThen (hacc.mono fun router₂ s h₂ => ?_)
  refine Serves.andThen ((serves_serviceReady _ h₂.1 (readyPending_sorted _) fun index hmem => ?_).mono
    fun router₃ s h₃ => serves_ret ?_)
  · have hlt := readyPending_lt hmem
    rw [length_drop, length_take] at hlt
    have hpend := h₁.pending ▸ h₂.2
    omega
  · rw [h₃.router]
    exact h₃

end RouterPoll

/-! ### Runs -/

/-- What stopped the router. -/
def RouterThread.error : RouterThread → Option RouterError
  | .stopped error => some error
  | _ => none

theorem RouterThread.error_eq_some {thread : RouterThread} {error : RouterError} :
    thread.error = some error ↔ thread = .stopped error := by
  cases thread <;> simp [RouterThread.error]

namespace RouterSystem
variable {fromUtf8Lossy : Bytes → Bytes} {s t : RouterSystem}

/-- The router can go on from here. -/
def Sound (s : RouterSystem) : Prop :=
  match s.thread with
  | .idle => Ready s.world.router s.world
  | .polled readiness => Ready s.world.router s.world ∧ 1 + s.world.router.pending.length ≤ readiness.length
  | .serving program => Serves program (fun _ world => Ready world.router world) s.world
  | .stopped _ => False

theorem sound_start (lifecycle : Bool) (now : Nat) : (start lifecycle now).Sound := by
  refine ⟨rfl, nofun, nodup_nil, nofun, nodup_nil, nofun, fun id stored hsto => ?_⟩
  cases hsto

theorem ready_disturb {w w' : RouterWorld} (h : Ready w.router w) (hstep : Disturbs w w') : Ready w'.router w' := by
  obtain ⟨e, he⟩ := hstep
  rw [(disturb_spec he).1]
  exact stable_ready w.router w w' ⟨e, he⟩ h

theorem Sound.disturb (h : s.Sound) {world : RouterWorld} (hstep : Disturbs s.world world) :
    Sound { s with world } := by
  obtain ⟨w, thread⟩ := s
  cases thread with
  | idle => exact ready_disturb h hstep
  | polled readiness =>
    refine ⟨ready_disturb h.1 hstep, ?_⟩
    obtain ⟨e, he⟩ := hstep
    show 1 + world.router.pending.length ≤ _
    rw [(disturb_spec he).1]
    exact h.2
  | serving program =>
    refine Meets.rely h (.single hstep) id fun r hpost => ?_
    obtain ⟨a, ha, hready⟩ := hpost
    exact ⟨a, ha, ready_disturb hready hstep⟩
  | stopped error => exact h

/-- `expire` lets connections go. -/
theorem ready_expire {w : RouterWorld} {notices : List RouterNotice} (h : Ready w.router w) :
    Ready (w.router.expire w.now).1 { w with router := (w.router.expire w.now).1, notices } := by
  have hfewer : w.Guarded w.router.watched ((w.router.expire w.now).1.pending.map (·.stream)) :=
    h.guarded.sublist (List.Sublist.refl _) (filter_sublist.map _)
  exact ⟨rfl, hfewer.same rfl rfl le_rfl rfl rfl⟩

theorem length_readiness (w : RouterWorld) :
    (readiness w).length = 1 + w.router.pending.length + w.router.watched.length := by
  simp only [readiness, cons_append, length_cons, length_append, length_map]
  omega

theorem sound_answer {choice : Nat} (h : s.Sound) (hcare : s.careful (.answer choice) = true)
    (ht : s.answer choice = some t) : t.Sound := by
  obtain ⟨w, thread⟩ := s
  unfold answer at ht
  split at ht
  next hthr =>
    cases ht
    cases hthr
    obtain ⟨-, a, -, hready⟩ := h
    exact hready
  next error hthr =>
    cases hthr
    obtain ⟨-, a, ha, -⟩ := h
    cases ha
  next op next hthr =>
    cases hthr
    obtain ⟨r, hr, rfl⟩ := Option.map_eq_some_iff.mp ht
    have hanswer : r ∈ carefulWorld.answers op w := by
      show r ∈ if w.careful op then w.answers op else []
      rw [if_pos (show w.careful op = true from hcare)]
      exact mem_of_getElem? hr
    exact Meets.answer h hanswer
  · cases ht

/-- **One step**: the router can go on, unless a registration goes wrong. -/
theorem sound_step (h : s.Sound) (hstep : CarefulStep fromUtf8Lossy s t) : t.Sound := by
  obtain ⟨e, hcare, ht⟩ := hstep
  cases e with
  | disturb event =>
    obtain ⟨world, hworld, rfl⟩ := Option.map_eq_some_iff.mp ht
    exact h.disturb ⟨event, hworld⟩
  | answer choice => exact sound_answer h hcare ht
  | expire =>
    obtain ⟨w, thread⟩ := s
    cases thread with
    | idle =>
      cases ht
      exact ready_expire h
    | polled | serving | stopped => cases ht
  | poll =>
    obtain ⟨w, thread⟩ := s
    cases thread with
    | idle =>
      cases ht
      refine ⟨h, ?_⟩
      rw [length_readiness]
      exact Nat.le_add_right _ _
    | polled | serving | stopped => cases ht
  | service =>
    obtain ⟨w, thread⟩ := s
    cases thread with
    | polled readiness =>
      cases ht
      exact RouterPoll.serves_service fromUtf8Lossy readiness h.1 h.2
    | idle | serving | stopped => cases ht

/-- An operation of the router does not block. -/
theorem answers_ne_nil (w : RouterWorld) (op : RouterOp) : w.answers op ≠ [] := by
  cases op with
  | accept =>
    rw [answers]
    split <;> exact cons_ne_nil _ _
  | write stream packet => exact append_ne_nil_of_right_ne_nil _ (cons_ne_nil _ _)
  | peek | read | reportStartup | removeIfCurrent | register | emit | now | store => exact cons_ne_nil _ _

theorem serving_goes_on {program : RouterCall Unit} (hthr : s.thread = .serving program) :
    ∃ choice t, s.apply fromUtf8Lossy (.answer choice) = some t := by
  obtain ⟨w, thread⟩ := s
  cases hthr
  match program with
  | .ret (.ok ()) => exact ⟨0, _, rfl⟩
  | .ret (.error error) => exact ⟨0, _, rfl⟩
  | .call op next =>
    obtain ⟨r, rest, hanswers⟩ := exists_cons_of_ne_nil (answers_ne_nil w op)
    refine ⟨0, ⟨r.2, .serving (next r.1)⟩, ?_⟩
    show Option.map _ (w.answers op)[0]? = _
    rw [hanswers]
    rfl

/-- **The router keeps running**: whatever terminals and sessions do, as long as no terminal takes the place of one that
left its whole startup status to be read, `service` returns, and without an error. -/
theorem router_keeps_running (fromUtf8Lossy : Bytes → Bytes) (lifecycle : Bool) (now : Nat) {s : RouterSystem}
    (hrun : Relation.ReflTransGen (CarefulStep fromUtf8Lossy) (start lifecycle now) s) :
    (∀ error, s.thread ≠ .stopped error) ∧
      ∀ program, s.thread = .serving program → ∃ choice t, s.apply fromUtf8Lossy (.answer choice) = some t := by
  have hsound : s.Sound := reach_invariant (P := Sound) hrun (sound_start lifecycle now) fun _ _ h => sound_step h
  refine ⟨fun error hstopped => ?_, fun program => serving_goes_on⟩
  unfold Sound at hsound
  rw [hstopped] at hsound
  exact hsound

/-! ### A terminal whose place is taken -/

section Takeover
open Protobuf

/-- A terminal registers that will send a startup status. -/
def hello : Bytes :=
  localFrame (.new terminalUserInfo
    (bytesField 1 (ascii "abcdefghijklmnop") ++ bytesField 2 (ascii "ABCDEFGHIJKLMNOPQRSTUVWXYZabcdef") ++
      varintField 5 (2 ^ 64 - 6)))

/-- The whole startup status of a terminal. -/
def started : Bytes := localFrame (statusPacket startupStatus (.ok ()))

/-- The router makes `n` steps of `service`. -/
def goesOn (n : Nat) : List RouterStep := List.replicate n (.answer 0)

/-- One terminal is registered, a second one has sent its registration of the same id.  After poll has returned, the
first one sends `bytes` and closes. -/
def takeover (bytes : Bytes) : List RouterStep :=
  List.flatten [
    [.disturb (.connect ⟨0, 0⟩), .disturb (.write 0 hello), .poll, .service], goesOn 5,
    [.expire, .poll, .service], goesOn 7,
    [.disturb (.connect ⟨0, 0⟩), .disturb (.write 1 hello), .expire, .poll, .service], goesOn 6,
    [.expire, .poll, .disturb (.write 0 bytes), .disturb (.close 0), .service], goesOn 8,
    [.expire, .poll, .service]]

/-- The second terminal is registered in the place of the first one, which left a part of its status: the router drops
the first one in its next round. -/
theorem router_keeps_running_takeover :
    ∃ s, Relation.ReflTransGen (CarefulStep id) (start true 0) s ∧
      (s.world.router.watched.map fun w => w.identity) = [⟨ascii "abcdefghijklmnop", 1⟩] ∧
      ∀ error, s.thread ≠ .stopped error := by
  obtain ⟨s, hs, hwatched⟩ := (Option.any_eq_true
    (fun s : RouterSystem => (s.world.router.watched.map fun w => w.identity) = [⟨ascii "abcdefghijklmnop", 1⟩])
    (execEvents (fun s e => if s.careful e then s.apply id e else none) (start true 0)
      (takeover [3] ++ goesOn 8))).mp (by decide +kernel)
  have hrun : Relation.ReflTransGen (CarefulStep id) (start true 0) s :=
    reach_of_exec (fun s e t ht => by
      split at ht
      next hcareful =>
        exact ⟨e, hcareful, ht⟩
      · cases ht) _ hs
  exact ⟨s, hrun, of_decide_eq_true hwatched, (router_keeps_running id true 0 hrun).1⟩

/-- The first terminal leaves its whole status: the router reads it, and stops. -/
theorem router_stops_on_late_status :
    ∃ s, Relation.ReflTransGen (Step id) (start true 0) s ∧ s.thread = .stopped (.io .unavailable) := by
  obtain ⟨s, hs, hstopped⟩ := (Option.any_eq_true
    (fun s : RouterSystem => s.thread.error = some (.io .unavailable))
    (execEvents (apply id) (start true 0) (takeover started ++ goesOn 6))).mp (by decide +kernel)
  refine ⟨s, reach_of_exec (fun s e t ht => ⟨e, ht⟩) _ hs, ?_⟩
  exact RouterThread.error_eq_some.mp (of_decide_eq_true hstopped)

end Takeover

end RouterSystem

end EternalTerminal
