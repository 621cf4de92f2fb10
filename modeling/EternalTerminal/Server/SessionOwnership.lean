import EternalTerminal.Server.SessionTable

/-!
# Server — who owns a slot

Across the locks, an open `SessionStart` is in one of two situations: it *owns* the slot of its id, which is then
starting with the start's own socket, or it is *stale*, and then the slot is of another generation or gone and the
registry will not offer the start's generation to a claim again.  That a generation which left the registry does not
come back makes stale final; everything else follows from the two cases (`SessionRun.Owned`).
-/

namespace EternalTerminal

open SessionRun List Option RegistryState AList

/-- The slot of the start's id is starting, and this start's claim made it so. -/
def SessionStart.Owns (start : SessionStart) (table : TableState) : Prop :=
  table.slots.lookup start.registration.id = some (.starting start.registration start.socket)

/-- The slot is not of the start's generation, and no claim will make it so. -/
def SessionStart.Stale (start : SessionStart) (s : SessionRun) : Prop :=
  (∀ slot, s.table.slots.lookup start.registration.id = some slot →
    slot.registration.toIdentity ≠ start.registration.toIdentity) ∧
  (s.registry.contains start.registration.toIdentity = false ∨ s.table.shutdown = true)

namespace TableHolder

/-- What the holder of the table's lock may rely on. -/
def Sound (s : SessionRun) : TableHolder → Prop
  | .claim registration socket _ current =>
    registration.identity < s.nextIdentity ∧ socket < s.nextSocket ∧ (∀ o ∈ s.starts, o.socket ≠ socket) ∧
    (current = true → s.table.shutdown = false ∧
      ∀ o ∈ s.starts, o.registration.id = registration.id →
        (o.registration.toIdentity = registration.toIdentity ∧ o.Owns s.table) ∨
        (o.registration.toIdentity ≠ registration.toIdentity ∧
          s.registry.contains o.registration.toIdentity = false))
  | .expire _ registration removeSlot _ =>
    (∀ slot, s.table.slots.lookup registration.id = some slot →
      slot.registration.toIdentity = registration.toIdentity → slot.isRegistered = true) ∧
    (removeSlot = true → ∃ slot, s.table.slots.lookup registration.id = some slot ∧ slot.isRegistered = true)

end TableHolder

/-- **The invariant of the session table.** -/
structure SessionRun.Owned (s : SessionRun) : Prop where
  /-- A slot is kept under its own id. -/
  keyed : ∀ id slot, s.table.slots.lookup id = some slot → slot.registration.id = id
  issued : ∀ o ∈ s.starts, o.registration.identity < s.nextIdentity ∧ o.socket < s.nextSocket
  distinct : (s.starts.map (·.socket)).Nodup
  stands : ∀ o ∈ s.starts, o.Owns s.table ∨ o.Stale s
  /-- Nobody but an open start keeps a slot starting. -/
  owner : ∀ id registration socket, s.table.slots.lookup id = some (.starting registration socket) →
    ∃ o ∈ s.starts, o.registration = registration ∧ o.socket = socket
  empty : s.table.shutdown = true → ∀ id, s.table.slots.lookup id = none
  holder : ∀ holder, s.holder = some holder → holder.Sound s

namespace SessionRun
variable {s s' : SessionRun} {o o' : SessionStart} {socket : Nat}

/-! ### The open starts -/

theorem openStart_spec (h : s.openStart socket = some o) : o ∈ s.starts ∧ o.socket = socket :=
  ⟨List.mem_of_find?_eq_some h, by simpa using List.find?_some h⟩

theorem mem_without : o ∈ s.without socket ↔ o ∈ s.starts ∧ o.socket ≠ socket := by simp [without]

theorem nodup_without (h : (s.starts.map (·.socket)).Nodup) : ((s.without socket).map (·.socket)).Nodup :=
  h.sublist (List.Sublist.map _ filter_sublist)

namespace Owned
variable (h : s.Owned) (ho : o ∈ s.starts)
include h ho

/-- A start whose generation is the slot's owns the slot. -/
theorem owns {slot : Slot} (hslot : s.table.slots.lookup o.registration.id = some slot)
    (hsame : slot.registration.toIdentity = o.registration.toIdentity) : o.Owns s.table :=
  (h.stands o ho).resolve_right fun hstale => hstale.1 slot hslot hsame

theorem eq_of_socket (ho' : o' ∈ s.starts) (hsock : o.socket = o'.socket) : o = o' :=
  inj_on_of_nodup_map h.distinct ho ho' hsock

/-- `startingAs` finds the slot of a start exactly when the start owns it. -/
theorem startingAs_iff : s.table.startingAs o.registration = true ↔ o.Owns s.table := by
  unfold TableState.startingAs
  constructor
  · intro hvd
    split at hvd
    · cases hvd
    next slot hslot =>
      rw [Bool.and_eq_true, Registration.sameGeneration_iff] at hvd
      exact h.owns ho hslot hvd.2
  · intro howns
    rw [howns]
    simp [Slot.isStarting, Slot.registration, Registration.sameGeneration_iff]

end Owned

/-! ### Steps that leave the table alone -/

/-- Table and starts stay, and no generation there was becomes current. -/
structure Calm (s s' : SessionRun) : Prop where
  table : s'.table = s.table
  starts : s'.starts = s.starts
  identity : s.nextIdentity ≤ s'.nextIdentity
  socket : s.nextSocket ≤ s'.nextSocket
  contains : ∀ identity : RegistrationIdentity, identity.identity < s.nextIdentity →
    s'.registry.contains identity = true → s.registry.contains identity = true

/-- The registry stays as well. -/
theorem Calm.of_registry (htable : s'.table = s.table) (hsts : s'.starts = s.starts)
    (hid : s'.nextIdentity = s.nextIdentity) (hsock : s.nextSocket ≤ s'.nextSocket)
    (hreg : s'.registry = s.registry) : Calm s s' :=
  ⟨htable, hsts, hid.ge, hsock, fun _ _ hcon => hreg ▸ hcon⟩

theorem Calm.gone (hcalm : Calm s s') (h : s.Owned) (ho : o ∈ s.starts)
    (hgone : s.registry.contains o.registration.toIdentity = false) :
    s'.registry.contains o.registration.toIdentity = false := by
  rw [← Bool.not_eq_true] at hgone ⊢
  exact fun hback => hgone (hcalm.contains _ (h.issued o ho).1 hback)

theorem Owned.calm (h : s.Owned) (hcalm : Calm s s') (hhold : ∀ holder, s'.holder = some holder → holder.Sound s') :
    s'.Owned where
  keyed := hcalm.table ▸ h.keyed
  issued o ho := by
    have hiss := h.issued o (hcalm.starts ▸ ho)
    exact ⟨Nat.lt_of_lt_of_le hiss.1 hcalm.identity, Nat.lt_of_lt_of_le hiss.2 hcalm.socket⟩
  distinct := hcalm.starts ▸ h.distinct
  stands o ho := by
    rw [hcalm.starts] at ho
    rcases h.stands o ho with howns | ⟨hslot, hgone⟩
    · exact .inl (hcalm.table ▸ howns)
    · exact .inr ⟨hcalm.table ▸ hslot, hgone.imp (hcalm.gone h ho) (fun hdown => hcalm.table ▸ hdown)⟩
  owner := by
    rw [hcalm.table, hcalm.starts]
    exact h.owner
  empty := hcalm.table ▸ h.empty
  holder := hhold

theorem Calm.sound (hcalm : Calm s s') (h : s.Owned) {holder : TableHolder} (hsd : holder.Sound s) :
    holder.Sound s' := by
  cases holder with
  | claim registration socket replaced current =>
    obtain ⟨hiss, hfresh, hoth, hcur⟩ := hsd
    refine ⟨Nat.lt_of_lt_of_le hiss hcalm.identity, Nat.lt_of_lt_of_le hfresh hcalm.socket,
      hcalm.starts ▸ hoth, fun hc => ⟨hcalm.table ▸ (hcur hc).1, fun o ho hid => ?_⟩⟩
    rw [hcalm.starts] at ho
    rcases (hcur hc).2 o ho hid with ⟨hsame, howns⟩ | ⟨hne, hgone⟩
    · exact .inl ⟨hsame, hcalm.table ▸ howns⟩
    · exact .inr ⟨hne, hcalm.gone h ho hgone⟩
  | expire sweep registration removeSlot stage =>
    unfold TableHolder.Sound at hsd ⊢
    rwa [hcalm.table]

/-- The registry changes under the holder of the table's lock, if there is one. -/
theorem Owned.registry (h : s.Owned) (hcalm : Calm s s') (hhold : s'.holder = s.holder) : s'.Owned :=
  h.calm hcalm fun holder heq => hcalm.sound h (h.holder holder (hhold ▸ heq))

/-- The table's lock is released. -/
theorem Owned.release (h : s.Owned) (hcalm : Calm s s') (hhold : s'.holder = none) : s'.Owned :=
  h.calm hcalm fun holder heq => by rw [hhold] at heq; cases heq

/-! ### Steps on one slot -/

/-- A slot is written, with its owner if it is starting; the starts of its id that do not own it are stale. -/
theorem Owned.insert (h : s.Owned) (slot : Slot) {starts : List SessionStart} {holder : Option TableHolder}
    (hopen : s.table.shutdown = false)
    (hiss : ∀ o ∈ starts, o.registration.identity < s.nextIdentity ∧ o.socket < s.nextSocket)
    (hdist : (starts.map (·.socket)).Nodup)
    (helse : ∀ o, o.registration.id ≠ slot.registration.id → (o ∈ starts ↔ o ∈ s.starts))
    (hhere : ∀ o ∈ starts, o.registration.id = slot.registration.id →
      slot = .starting o.registration o.socket ∨
        (slot.registration.toIdentity ≠ o.registration.toIdentity ∧
          s.registry.contains o.registration.toIdentity = false))
    (howner : ∀ registration socket, slot = .starting registration socket →
      ∃ o ∈ starts, o.registration = registration ∧ o.socket = socket)
    (hs' : s' = { s with
      table := { s.table with slots := s.table.slots.insert slot.registration.id slot }
      starts := starts
      holder := holder })
    (hhold : ∀ holder, s'.holder = some holder → holder.Sound s') : s'.Owned := by
  subst hs'
  refine ⟨fun id slot' hlk => ?_, hiss, hdist, fun o ho => ?_, fun id registration socket hlk => ?_,
    fun hdown => ?_, hhold⟩
  · by_cases hid : id = slot.registration.id
    · subst hid
      rw [lookup_insert] at hlk
      cases hlk
      rfl
    · rw [lookup_insert_ne hid] at hlk
      exact h.keyed id slot' hlk
  · by_cases hid : o.registration.id = slot.registration.id
    · rcases hhere o ho hid with hslot | ⟨hne, hgone⟩
      · left
        rw [SessionStart.Owns, hid, lookup_insert, hslot]
      · refine .inr ⟨fun slot' hlk => ?_, .inl hgone⟩
        rw [hid, lookup_insert] at hlk
        cases hlk
        exact hne
    · rw [SessionStart.Owns, SessionStart.Stale, lookup_insert_ne hid]
      exact h.stands o ((helse o hid).mp ho)
  · by_cases hid : id = slot.registration.id
    · subst hid
      rw [lookup_insert] at hlk
      exact howner registration socket (some.inj hlk)
    · rw [lookup_insert_ne hid] at hlk
      obtain ⟨o, ho, hreg, hsock⟩ := h.owner id registration socket hlk
      have hkey : registration.id = id := h.keyed id _ hlk
      exact ⟨o, (helse o (by rwa [hreg, hkey])).mpr ho, hreg, hsock⟩
  · rw [hopen] at hdown
    cases hdown

/-- A slot is removed; its owner, if it has one, was of a generation that left the registry. -/
theorem Owned.erase (h : s.Owned) {id : Bytes} (hgone : ∀ o ∈ s.starts, o.registration.id = id → o.Owns s.table →
      s.registry.contains o.registration.toIdentity = false)
    (htable : s'.table = { s.table with slots := s.table.slots.erase id }) (hsts : s'.starts = s.starts)
    (hreg : s'.registry = s.registry) (hidentity : s'.nextIdentity = s.nextIdentity)
    (hsock : s'.nextSocket = s.nextSocket) (hhold : s'.holder = none) : s'.Owned := by
  have hlk : ∀ id', s'.table.slots.lookup id' = if id' = id then none else s.table.slots.lookup id' := by
    intro id'
    rw [htable]
    split
    next hid =>
      rw [hid, lookup_erase]
    next hid =>
      rw [lookup_erase_ne hid]
  have hdown : s'.table.shutdown = s.table.shutdown := by rw [htable]
  refine ⟨fun id' slot hslot => ?_, ?_, hsts ▸ h.distinct, fun o ho => ?_, fun id' registration socket hslot => ?_,
    fun hdown' id' => ?_, fun holder heq => ?_⟩
  · rw [hlk] at hslot
    split at hslot
    · cases hslot
    · exact h.keyed id' slot hslot
  · rw [hsts, hidentity, hsock]
    exact h.issued
  · rw [hsts] at ho
    rw [SessionStart.Owns, SessionStart.Stale, hlk, hreg, hdown]
    split
    next hid =>
      refine .inr ⟨(fun slot hslot => nomatch hslot), ?_⟩
      rcases h.stands o ho with howns | hstale
      · exact .inl (hgone o ho hid howns)
      · exact hstale.2
    · exact h.stands o ho
  · rw [hlk] at hslot
    rw [hsts]
    split at hslot
    · cases hslot
    · exact h.owner id' registration socket hslot
  · rw [hlk]
    split
    · rfl
    · exact h.empty (hdown ▸ hdown') id'
  · rw [hhold] at heq
    cases heq

/-! ### The sections of a claim -/

variable {registration : Registration} {session : Nat} {e : SessionEvent} {id : Bytes}
  {authenticated removeSlot : Bool} {sweep : ExpirySweep} {stage : ExpiryStage} {slot : Slot}

theorem Owned.claimed (h : s.Owned) (hiss : registration.identity < s.nextIdentity) :
    Owned { s with
      holder := some (.claim registration s.nextSocket none false)
      nextSocket := s.nextSocket + 1 } := by
  refine h.calm (.of_registry rfl rfl rfl (Nat.le_succ _) rfl) fun holder heq => ?_
  cases heq
  exact ⟨hiss, Nat.lt_succ_self _, fun o ho => Nat.ne_of_lt (h.issued o ho).2, nofun⟩

theorem TableState.claimCheck_ok {table : TableState} {registry : RegistryState}
    (h : table.claimCheck registration registry = .ok ()) :
    table.shutdown = false ∧ registry.contains registration.toIdentity = true := by
  unfold TableState.claimCheck at h
  split at h
  · cases h
  rename_i hopen
  split at h
  next hcon =>
    exact ⟨by simpa using hopen, hcon⟩
  · cases h

/-- A start of a generation that is current owns its slot. -/
theorem Owned.owns_of_contains (h : s.Owned) (ho : o ∈ s.starts) (hopen : s.table.shutdown = false)
    (hcon : s.registry.contains o.registration.toIdentity = true) : o.Owns s.table := by
  refine (h.stands o ho).resolve_right fun hstale => ?_
  rcases hstale.2 with hgone | hdown
  · simp [hcon] at hgone
  · simp [hopen] at hdown

theorem Owned.checked (h : s.Owned) {replaced : Option SessionConnection}
    (hhold : s.holder = some (.claim registration socket replaced false))
    (hcheck : s.table.claimCheck registration s.registry = .ok ()) :
    Owned { s with holder := some (.claim registration socket replaced true) } := by
  obtain ⟨hopen, hcon⟩ := TableState.claimCheck_ok hcheck
  obtain ⟨hiss, hsock, hoth, -⟩ := h.holder _ hhold
  refine h.calm (.of_registry rfl rfl rfl le_rfl rfl) fun holder heq => ?_
  cases heq
  refine ⟨hiss, hsock, hoth, fun _ => ⟨hopen, fun o ho hid => ?_⟩⟩
  by_cases hsame : o.registration.toIdentity = registration.toIdentity
  · exact .inl ⟨hsame, h.owns_of_contains ho hopen (hsame ▸ hcon)⟩
  · refine .inr ⟨hsame, ?_⟩
    rw [← Bool.not_eq_true]
    exact fun hoth => hsame (contains_unique hoth hcon hid)

/-- A pass that finds no slot of the claimed generation registers it; what stood there is stale from now on. -/
theorem Owned.replaced (h : s.Owned) {replaced replaced' : Option SessionConnection}
    (hhold : s.holder = some (.claim registration socket replaced true))
    (hslot : ∀ slot, s.table.slots.lookup registration.id = some slot →
      slot.registration.toIdentity ≠ registration.toIdentity) :
    Owned { s with
      table := { s.table with slots := s.table.slots.insert registration.id (.registered registration) }
      holder := some (.claim registration socket replaced' false) } := by
  obtain ⟨hiss, hsock, hoth, hcur⟩ := h.holder _ hhold
  obtain ⟨hopen, hstands⟩ := hcur rfl
  refine h.insert (.registered registration) hopen h.issued h.distinct (fun _ _ => Iff.rfl)
    (fun o ho hid => ?_) (fun _ _ hstarting => nomatch hstarting) rfl fun holder heq => ?_
  · rcases hstands o ho hid with ⟨hsame, howns⟩ | ⟨hne, hgone⟩
    · rw [SessionStart.Owns, hid] at howns
      exact absurd hsame (hslot _ howns)
    · exact .inr ⟨fun heq => hne heq.symm, hgone⟩
  · cases heq
    exact ⟨hiss, hsock, hoth, nofun⟩

/-- A pass that finds the claimed generation registered hands out its only start. -/
theorem Owned.started (h : s.Owned) {stored : Registration} {replaced : Option SessionConnection}
    (hhold : s.holder = some (.claim registration socket replaced true))
    (hslot : s.table.slots.lookup registration.id = some (.registered stored))
    (hsame : stored.toIdentity = registration.toIdentity) :
    Owned { s with
      table := { s.table with slots := s.table.slots.insert registration.id (.starting stored socket) }
      starts := ⟨stored, socket, false⟩ :: s.starts
      holder := none } := by
  obtain ⟨hiss, hsock, hoth, hcur⟩ := h.holder _ hhold
  obtain ⟨hopen, hstands⟩ := hcur rfl
  have hid : stored.id = registration.id := congrArg RegistrationIdentity.id hsame
  have hidentity : stored.identity = registration.identity := congrArg RegistrationIdentity.identity hsame
  rw [← hid] at hslot ⊢
  refine h.insert (.starting stored socket) hopen (fun o ho => ?_) ?_ (fun o hne => ?_) (fun o ho hid' => ?_)
    (fun _ _ hstarting => ?_) rfl nofun
  · rcases mem_cons.mp ho with rfl | ho
    · exact ⟨hidentity ▸ hiss, hsock⟩
    · exact h.issued o ho
  · rw [map_cons, nodup_cons]
    refine ⟨fun hmem => ?_, h.distinct⟩
    obtain ⟨o, ho, heq⟩ := mem_map.mp hmem
    exact hoth o ho heq
  · rw [mem_cons, or_iff_right]
    rintro rfl
    exact hne rfl
  · rcases mem_cons.mp ho with rfl | ho
    · exact .inl rfl
    · rcases hstands o ho (hid'.trans hid) with ⟨-, howns⟩ | ⟨hne, hgone⟩
      · -- a start that owns the slot would keep it starting
        have hid'' : o.registration.id = stored.id := hid'
        rw [SessionStart.Owns, hid'', hslot] at howns
        cases howns
      · exact .inr ⟨fun heq => hne (heq.symm.trans hsame), hgone⟩
  · cases hstarting
    exact ⟨_, mem_cons_self, rfl, rfl⟩

/-- **The passes of a claim**: it registers the claimed generation, it hands out the start of a registered slot, or it
leaves the table. -/
theorem claimTurn_cases (table : TableState) (registration : Registration) (socket : Nat)
    (replaced : Option SessionConnection) :
    ((∀ slot, table.slots.lookup registration.id = some slot →
        slot.registration.toIdentity ≠ registration.toIdentity) ∧
      ∃ replaced', table.claimTurn registration socket replaced =
        .again { table with slots := table.slots.insert registration.id (.registered registration) } replaced') ∨
    (∃ stored, table.slots.lookup registration.id = some (.registered stored) ∧
      stored.toIdentity = registration.toIdentity ∧
      table.claimTurn registration socket replaced =
        .done { table with slots := table.slots.insert registration.id (.starting stored socket) }
          (.ok (.new ⟨stored, socket, false⟩ replaced))) ∨
    ∃ result, startOf result = [] ∧ table.claimTurn registration socket replaced = .done table result := by
  unfold TableState.claimTurn
  cases hslot : table.slots.lookup registration.id with
  | none => exact .inl ⟨(fun _ hlk => nomatch hlk), replaced, rfl⟩
  | some slot =>
    by_cases hsame : slot.registration.toIdentity = registration.toIdentity
    · simp only [Registration.sameGeneration_iff.mpr hsame, Bool.not_true, Bool.false_eq_true, if_false]
      cases slot with
      | registered stored => exact .inr (.inl ⟨stored, rfl, hsame, rfl⟩)
      | starting stored socket' => exact .inr (.inr ⟨_, rfl, rfl⟩)
      | active stored session => exact .inr (.inr ⟨_, rfl, rfl⟩)
    · have hgeneration := mt Registration.sameGeneration_iff.mp hsame
      simp only [hgeneration, Bool.not_false, if_true]
      exact .inl ⟨by rintro _ ⟨⟩; exact hsame, _, rfl⟩

theorem Owned.turned (h : s.Owned) (he : s.apply .claimTurn = some s') : s'.Owned := by
  rw [apply] at he
  split at he
  next registration socket replaced hhold =>
    rcases claimTurn_cases s.table registration socket replaced with
      ⟨hslot, replaced', heq⟩ | ⟨stored, hslot, hsame, heq⟩ | ⟨result, hres, heq⟩
    all_goals
      rw [heq] at he
      cases he
    · exact h.replaced hhold hslot
    · exact h.started hhold hslot hsame
    · exact h.release (.of_registry rfl (by rw [hres]; rfl) rfl le_rfl rfl) rfl
  · cases he

/-! ### The sections of a start -/

section
variable (h : s.Owned)
include h

/-- The owner of a slot gives it back, active or registered. -/
theorem Owned.settled (ho : o ∈ s.starts) (howns : o.Owns s.table) (hhold : s.holder = none) (slot : Slot)
    (hslot : slot.registration = o.registration) (hstarting : slot.isStarting = false) :
    Owned { s with
      table := { s.table with slots := s.table.slots.insert o.registration.id slot }
      starts := s.without o.socket } := by
  have hopen : s.table.shutdown = false := by
    rw [← Bool.not_eq_true]
    exact fun hdown => by cases howns.symm.trans (h.empty hdown _)
  rw [← hslot]
  refine h.insert slot hopen (fun o' ho' => h.issued o' (mem_without.mp ho').1) (nodup_without h.distinct)
    (fun o' hne => ?_) (fun o' ho' hid => .inr ?_) (fun registration socket heq => ?_) rfl
    fun holder heq => by rw [hhold] at heq; cases heq
  · rw [mem_without, and_iff_left_of_imp]
    intro ho' hsock
    rw [h.eq_of_socket ho' ho hsock, hslot] at hne
    exact hne rfl
  · obtain ⟨ho', hsock⟩ := mem_without.mp ho'
    rw [hslot] at hid ⊢
    -- the other starts of the id do not own the slot
    have hnot : ¬ o'.Owns s.table := by
      intro howns'
      rw [SessionStart.Owns, hid, howns, some.injEq, Slot.starting.injEq] at howns'
      exact hsock howns'.2.symm
    obtain ⟨hne, hgone⟩ := (h.stands o' ho').resolve_left hnot
    rw [hid] at hne
    exact ⟨hne _ howns, hgone.resolve_right (by simp [hopen])⟩
  · rw [heq] at hstarting
    cases hstarting

/-- A start that owns nothing goes away, or only changes its mark. -/
theorem Owned.abandoned (ho : o ∈ s.starts) (hnot : ¬ o.Owns s.table) {starts : List SessionStart}
    (hdist : (starts.map (·.socket)).Nodup)
    (hfrom : ∀ o' ∈ starts, ∃ o ∈ s.starts, o.registration = o'.registration ∧ o.socket = o'.socket)
    (hkept : ∀ o' ∈ s.starts, o'.socket ≠ o.socket → o' ∈ starts) (hhold : s.holder = none) :
    Owned { s with starts := starts } where
  keyed := h.keyed
  issued o' ho' := by
    obtain ⟨o, ho, hreg, hsock⟩ := hfrom o' ho'
    rw [← hreg, ← hsock]
    exact h.issued o ho
  distinct := hdist
  stands o' ho' := by
    obtain ⟨o, ho, hreg, hsock⟩ := hfrom o' ho'
    rw [SessionStart.Owns, SessionStart.Stale, ← hreg, ← hsock]
    exact h.stands o ho
  owner id registration socket hlk := by
    obtain ⟨o', ho', hreg, hsock⟩ := h.owner id registration socket hlk
    refine ⟨o', hkept o' ho' fun heq => hnot ?_, hreg, hsock⟩
    have hkey : registration.id = id := h.keyed id _ hlk
    rw [← h.eq_of_socket ho' ho heq, SessionStart.Owns, hreg, hsock, hkey]
    exact hlk
  empty := h.empty
  holder holder heq := by
    rw [hhold] at heq
    cases heq

/-- **What `activate` does**: the slot of the start becomes active exactly when the start owns it; otherwise the call
fails and the table stays. -/
theorem Owned.activate_spec (ho : o ∈ s.starts) (session : Nat) :
    (o.Owns s.table ∧ o.activate s.table session =
      .ok { s.table with slots := s.table.slots.insert o.registration.id (.active o.registration session) }) ∨
    (¬ o.Owns s.table ∧ ∃ error, o.activate s.table session = .error error) := by
  unfold SessionStart.activate
  by_cases hdown : s.table.shutdown = true
  · refine .inr ⟨fun howns => ?_, .shuttingDown, by rw [if_pos hdown]⟩
    cases howns.symm.trans (h.empty hdown _)
  rw [if_neg hdown]
  by_cases howns : o.Owns s.table
  · exact .inl ⟨howns, by simp [(h.startingAs_iff ho).mpr howns]⟩
  · have hstarting := mt (h.startingAs_iff ho).mp howns
    exact .inr ⟨howns, .invalidTransition, by simp [hstarting]⟩

/-- **What a drop does**: it gives the slot back if the start owns it, and nothing otherwise. -/
theorem Owned.drop_eq (ho : o ∈ s.starts) [Decidable (o.Owns s.table)] :
    o.drop s.table =
      if o.Owns s.table then
        { s.table with slots := s.table.slots.insert o.registration.id (.registered o.registration) }
      else s.table := by
  unfold SessionStart.drop
  by_cases howns : o.Owns s.table
  · rw [if_pos ((h.startingAs_iff ho).mpr howns), if_pos howns]
  · rw [if_neg (mt (h.startingAs_iff ho).mp howns), if_neg howns]

theorem Owned.apply_activate (he : s.apply (.activate socket session) = some s') :
    ∃ o ∈ s.starts, o.socket = socket ∧ s.holder = none ∧
      ((o.Owns s.table ∧ s' = { s with
          table := { s.table with slots := s.table.slots.insert o.registration.id (.active o.registration session) }
          starts := s.without o.socket }) ∨
        (¬ o.Owns s.table ∧ s' = { s with starts := { o with failed := true } :: s.without o.socket })) := by
  rw [apply] at he
  cases hopen : s.openStart socket with
  | none => simp [hopen] at he
  | some o =>
    obtain ⟨ho, rfl⟩ := openStart_spec hopen
    rw [hopen] at he
    dsimp only at he
    split at he
    · cases he
    rename_i hfree
    simp only [Bool.or_eq_true, not_or, Bool.not_eq_true, isSome_eq_false_iff, isNone_iff_eq_none]
      at hfree
    refine ⟨o, ho, rfl, hfree.1, ?_⟩
    rcases h.activate_spec ho session with ⟨howns, hok⟩ | ⟨hnot, error, herr⟩
    · rw [hok] at he
      exact .inl ⟨howns, (some.inj he).symm⟩
    · rw [herr] at he
      exact .inr ⟨hnot, (some.inj he).symm⟩

theorem Owned.activated (he : s.apply (.activate socket session) = some s') : s'.Owned := by
  obtain ⟨o, ho, rfl, hhold, ⟨howns, rfl⟩ | ⟨hnot, rfl⟩⟩ := h.apply_activate he
  · exact h.settled ho howns hhold (.active o.registration session) rfl rfl
  · refine h.abandoned ho hnot ?_ (fun o' ho' => ?_) (fun o' ho' hne => ?_) hhold
    · rw [map_cons, nodup_cons]
      refine ⟨fun hmem => ?_, nodup_without h.distinct⟩
      obtain ⟨o', ho', heq⟩ := mem_map.mp hmem
      exact (mem_without.mp ho').2 heq
    · rcases mem_cons.mp ho' with rfl | ho'
      · exact ⟨o, ho, rfl, rfl⟩
      · exact ⟨o', (mem_without.mp ho').1, rfl, rfl⟩
    · exact mem_cons_of_mem _ (mem_without.mpr ⟨ho', hne⟩)

end

theorem apply_drop (he : s.apply (.drop socket) = some s') :
    ∃ o ∈ s.starts, o.socket = socket ∧ s.holder = none ∧
      s' = { s with table := o.drop s.table, starts := s.without o.socket } := by
  rw [apply] at he
  cases hopen : s.openStart socket with
  | none => simp [hopen] at he
  | some o =>
    obtain ⟨ho, rfl⟩ := openStart_spec hopen
    rw [hopen] at he
    dsimp only at he
    split at he
    · cases he
    next hfree =>
      exact ⟨o, ho, rfl, by simpa using hfree, (some.inj he).symm⟩

theorem Owned.dropped (h : s.Owned) (he : s.apply (.drop socket) = some s') : s'.Owned := by
  classical
  obtain ⟨o, ho, rfl, hhold, rfl⟩ := apply_drop he
  rw [h.drop_eq ho]
  split
  next howns =>
    exact h.settled ho howns hhold (.registered o.registration) rfl rfl
  rename_i hnot
  exact h.abandoned ho hnot (nodup_without h.distinct)
    (fun o' ho' => ⟨o', (mem_without.mp ho').1, rfl, rfl⟩) (fun o' ho' hne => mem_without.mpr ⟨ho', hne⟩)
    hhold

/-! ### The other sections -/

theorem Owned.removed (h : s.Owned) {identity : RegistrationIdentity} (hhold : s.holder = none)
    (hgone : s.registry.contains identity = false) :
    Owned { s with table := (s.table.removeRegistrationWith identity).2 } := by
  unfold TableState.removeRegistrationWith
  split
  · exact h
  rename_i slot hslot
  split
  · exact h
  rename_i hmatches
  rw [Bool.not_eq_true', Bool.not_eq_false, RegistrationIdentity.matches_iff] at hmatches
  refine h.erase (fun o ho hid howns => ?_) rfl rfl rfl rfl rfl hhold
  rw [SessionStart.Owns, hid, hslot, some.injEq] at howns
  rw [hmatches, howns] at hgone
  exact hgone

theorem Owned.shutdown (h : s.Owned) (hhold : s.holder = none) :
    Owned { s with table := s.table.beginShutdown.2 } where
  keyed _ _ hlk := nomatch hlk
  issued := h.issued
  distinct := h.distinct
  stands _ _ := .inr ⟨(fun _ hlk => nomatch hlk), .inr rfl⟩
  owner _ _ _ hlk := nomatch hlk
  empty _ _ := rfl
  holder holder heq := by
    rw [hhold] at heq
    cases heq

/-- The decision to expire a registration is one to leave a slot alone that is not merely registered. -/
theorem expiryDecision_sound (h : s.table.expiryDecision registration authenticated = .expire removeSlot) :
    (TableHolder.expire sweep registration removeSlot stage).Sound s := by
  unfold TableState.expiryDecision at h
  split at h
  · cases h
  dsimp only at h
  split at h
  · cases h
  rename_i hreg
  split at h
  · cases h
  cases h
  have hall : ∀ slot, s.table.slots.lookup registration.id = some slot →
      slot.registration.toIdentity = registration.toIdentity → slot.isRegistered = true := by
    intro slot hslot hsame
    have hmatches := RegistrationIdentity.matches_iff.mpr hsame.symm
    simpa [hslot, hmatches] using hreg
  refine ⟨hall, fun hsome => ?_⟩
  obtain ⟨slot, hslot⟩ := isSome_iff_exists.mp hsome
  rw [filter_eq_some_iff, RegistrationIdentity.matches_iff] at hslot
  exact ⟨slot, hslot.1, hall slot hslot.1 hslot.2.symm⟩

theorem Owned.swept (h : s.Owned) {index : Nat} (he : s.expireNext index authenticated = some s') :
    s'.Owned ∧ s'.table = s.table ∧ s'.registry = s.registry := by
  unfold SessionRun.expireNext at he
  split at he
  · cases he
  · cases he
    exact ⟨h.registry (.of_registry rfl rfl rfl le_rfl rfl) rfl, rfl, rfl⟩
  dsimp only at he
  split at he
  · cases he
    exact ⟨h.registry (.of_registry rfl rfl rfl le_rfl rfl) rfl, rfl, rfl⟩
  split at he
  · cases he
  split at he
  · cases he
    exact ⟨h.registry (.of_registry rfl rfl rfl le_rfl rfl) rfl, rfl, rfl⟩
  · cases he
    exact ⟨h.registry (.of_registry rfl rfl rfl le_rfl rfl) rfl, rfl, rfl⟩
  rename_i removeSlot hdecision
  cases he
  refine ⟨h.calm (.of_registry rfl rfl rfl le_rfl rfl) fun holder heq => ?_, rfl, rfl⟩
  cases heq
  exact expiryDecision_sound hdecision

/-- A sweep goes on under the table's lock. -/
theorem Owned.staged (h : s.Owned)
    {stage' : ExpiryStage} (hhold : s.holder = some (.expire sweep registration removeSlot stage))
    (hcalm : Calm s s') (hhold' : s'.holder = some (.expire sweep registration removeSlot stage')) : s'.Owned := by
  refine h.calm hcalm fun holder heq => ?_
  cases hhold'.symm.trans heq
  have hsd := h.holder _ hhold
  exact (hcalm.sound h hsd : (TableHolder.expire sweep registration removeSlot stage).Sound s')

theorem Owned.expireRemoved (h : s.Owned) {now : Nat} (he : s.apply (.expireRemove now) = some s') :
    s'.Owned ∧ s'.table = s.table := by
  have hcon : ∀ (registration : Registration) (identity : RegistrationIdentity),
      identity.identity < s.nextIdentity →
      (s.registry.removeIfCurrent registration.toIdentity now).2.contains identity = true →
      s.registry.contains identity = true :=
    fun _ _ _ hcon => contains_of_removeIfCurrent hcon
  rw [apply] at he
  split at he
  next sweep registration removeSlot hhold =>
    have hcon := hcon registration
    split at he
    all_goals
      rename_i registry hremove
      rw [hremove] at hcon
      cases he
    · exact ⟨h.staged hhold ⟨rfl, rfl, Nat.le_refl _, Nat.le_refl _, hcon⟩ rfl, rfl⟩
    · exact ⟨h.release ⟨rfl, rfl, Nat.le_refl _, Nat.le_refl _, hcon⟩ rfl, rfl⟩
  · cases he

theorem Owned.expireFinished (h : s.Owned) (he : s.apply .expireFinish = some s') : s'.Owned := by
  rw [apply] at he
  split at he
  next sweep registration removeSlot hhold =>
    split at he
    next hremove =>
      cases he
      obtain ⟨slot, hslot, hreg⟩ := (h.holder _ hhold).2 hremove
      refine h.erase (fun o ho hid howns => ?_) rfl rfl rfl rfl rfl rfl
      rw [SessionStart.Owns, hid, hslot, some.injEq] at howns
      rw [howns] at hreg
      cases hreg
    · cases he
      exact h.release (.of_registry rfl rfl rfl le_rfl rfl) rfl
  · cases he

/-! ### Whole runs -/

theorem Owned.start (timeout : Int) : (SessionRun.start timeout).Owned where
  keyed _ _ hlk := nomatch hlk
  issued := nofun
  distinct := nodup_nil
  stands := nofun
  owner _ _ _ hlk := nomatch hlk
  empty _ _ := rfl
  holder := nofun

/-- The events that may change the table. -/
def writesTable : SessionEvent → Bool
  | .claimTurn | .activate _ _ | .drop _ | .removeRegistrationWith _ | .beginShutdown | .expireFinish => true
  | _ => false

/-- **Every step of every thread keeps the invariant.** -/
theorem Owned.apply (h : s.Owned) (he : s.apply e = some s') :
    s'.Owned ∧ (writesTable e = false → s'.table = s.table) := by
  cases e with
  | register userInfo stream peer peerClosed now =>
    cases he
    exact ⟨h.registry ⟨rfl, rfl, Nat.le_succ _, Nat.le_refl _,
      fun _ hold hcon => contains_of_register hold hcon⟩ rfl, fun _ => rfl⟩
  | removeIfCurrent identity now =>
    cases he
    exact ⟨h.registry ⟨rfl, rfl, Nat.le_refl _, Nat.le_refl _,
      fun _ _ hcon => contains_of_removeIfCurrent hcon⟩ rfl, fun _ => rfl⟩
  | claim registration =>
    obtain ⟨hfree, rfl⟩ := ite_some_none_eq_some.mp he
    exact ⟨h.claimed hfree.2, fun _ => rfl⟩
  | claimCheck =>
    rw [SessionRun.apply] at he
    split at he
    next registration socket replaced hhold =>
      split at he
      · cases he
        exact ⟨h.release (.of_registry rfl rfl rfl le_rfl rfl) rfl, fun _ => rfl⟩
      next hcheck =>
        cases he
        exact ⟨h.checked hhold hcheck, fun _ => rfl⟩
    · cases he
  | claimTurn => exact ⟨h.turned he, nofun⟩
  | activate socket session => exact ⟨h.activated he, nofun⟩
  | drop socket => exact ⟨h.dropped he, nofun⟩
  | removeRegistrationWith identity =>
    obtain ⟨hfree, rfl⟩ := ite_some_none_eq_some.mp he
    exact ⟨h.removed (isNone_iff_eq_none.mp hfree.1) hfree.2, nofun⟩
  | beginShutdown =>
    obtain ⟨hfree, rfl⟩ := ite_some_none_eq_some.mp he
    exact ⟨h.shutdown (isNone_iff_eq_none.mp hfree), nofun⟩
  | expireBegin now order =>
    obtain ⟨-, rfl⟩ := ite_some_none_eq_some.mp he
    exact ⟨h.registry (.of_registry rfl rfl rfl le_rfl rfl) rfl, fun _ => rfl⟩
  | expireNext index authenticated => exact (h.swept he).imp_right fun hsame _ => hsame.1
  | expireClone cloned =>
    rw [SessionRun.apply] at he
    split at he
    next sweep registration removeSlot hhold =>
      split at he
      · cases he
        exact ⟨h.staged hhold (.of_registry rfl rfl rfl le_rfl rfl) rfl, fun _ => rfl⟩
      · cases he
        exact ⟨h.release (.of_registry rfl rfl rfl le_rfl rfl) rfl, fun _ => rfl⟩
      · cases he
        exact ⟨h.release (.of_registry rfl rfl rfl le_rfl rfl) rfl, fun _ => rfl⟩
    · cases he
  | expireRemove now => exact (h.expireRemoved he).imp_right fun hsame _ => hsame
  | expireFinish => exact ⟨h.expireFinished he, nofun⟩

theorem Owned.of_reach {timeout : Int} (hrun : Relation.ReflTransGen SessionStep (.start timeout) s) : s.Owned :=
  reach_invariant (P := Owned) hrun (.start timeout) fun _ _ h hstep => by
    obtain ⟨e, _, he⟩ := hstep
    exact (h.apply he).1

/-! ### What a step does to a slot -/

/-- At most one open start is of the slot's generation. -/
theorem Owned.unique (h : s.Owned) (hslot : s.table.slots.lookup id = some slot) :
    (s.starts.filter fun o => o.registration.sameGeneration slot.registration).length ≤ 1 := by
  have howns : ∀ o ∈ s.starts, o.registration.sameGeneration slot.registration = true →
      slot = .starting o.registration o.socket := by
    intro o ho hsame
    rw [Registration.sameGeneration_iff] at hsame
    have hid : o.registration.id = id :=
      (congrArg RegistrationIdentity.id hsame).trans (h.keyed id slot hslot)
    rw [← hid] at hslot
    exact some.inj (hslot.symm.trans (h.owns ho hslot hsame.symm))
  have hdist : ((s.starts.filter fun o => o.registration.sameGeneration slot.registration).map (·.socket)).Nodup :=
    h.distinct.sublist (List.Sublist.map _ filter_sublist)
  match hsts : s.starts.filter fun o => o.registration.sameGeneration slot.registration with
  | [] => exact hsts ▸ Nat.zero_le 1
  | [_] => exact hsts ▸ Nat.le_refl 1
  | o :: o' :: rest =>
    -- two starts of the generation would both have put their socket into the slot
    have hmem : ∀ a ∈ o :: o' :: rest, slot = .starting a.registration a.socket := by
      intro a ha
      rw [← hsts, mem_filter] at ha
      exact howns a ha.1 ha.2
    have hsock := (hmem o (by simp)).symm.trans (hmem o' (by simp))
    rw [hsts] at hdist
    simp only [Slot.starting.injEq] at hsock
    simp [hsock.2] at hdist

/-- **Only `activate` makes a slot active**, and only the slot its start owns. -/
theorem Owned.activates (h : s.Owned) (he : s.apply e = some s')
    (hact : s'.table.slots.lookup id = some (.active registration session))
    (hbef : s.table.slots.lookup id ≠ some (.active registration session)) :
    ∃ o ∈ s.starts, e = .activate o.socket session ∧ o.registration = registration ∧
      s.table.slots.lookup id = some (.starting registration o.socket) := by
  classical
  by_cases hwr : writesTable e = false
  · rw [(h.apply he).2 hwr] at hact
    exact absurd hact hbef
  have herase : ∀ id', (s.table.slots.erase id').lookup id = some (.active registration session) → False := by
    intro id' hlk
    by_cases hid : id = id'
    · rw [hid, lookup_erase] at hlk
      cases hlk
    · rw [lookup_erase_ne hid] at hlk
      exact hbef hlk
  have hinsert : ∀ id' slot', (s.table.slots.insert id' slot').lookup id = some (.active registration session) →
      id = id' ∧ slot' = .active registration session := by
    intro id' slot' hlk
    by_cases hid : id = id'
    · rw [hid, lookup_insert, some.injEq] at hlk
      exact ⟨hid, hlk⟩
    · rw [lookup_insert_ne hid] at hlk
      exact absurd hlk hbef
  cases e with
  | register | removeIfCurrent | claim | expireBegin | expireNext | claimCheck | expireClone | expireRemove =>
    exact absurd rfl hwr
  | claimTurn =>
    rw [SessionRun.apply] at he
    split at he
    next claimed socket replaced hhold =>
      rcases claimTurn_cases s.table claimed socket replaced with
        ⟨-, replaced', heq⟩ | ⟨stored, -, -, heq⟩ | ⟨result, -, heq⟩
      all_goals
        rw [heq] at he
        cases he
      · cases (hinsert _ _ hact).2
      · cases (hinsert _ _ hact).2
      · exact absurd hact hbef
    · cases he
  | activate socket session' =>
    obtain ⟨o, ho, rfl, -, ⟨howns, rfl⟩ | ⟨-, rfl⟩⟩ := h.apply_activate he
    · obtain ⟨hid, hslot⟩ := hinsert _ _ hact
      cases hslot
      exact ⟨o, ho, rfl, rfl, hid ▸ howns⟩
    · exact absurd hact hbef
  | drop socket =>
    obtain ⟨o, ho, rfl, -, rfl⟩ := apply_drop he
    rw [h.drop_eq ho] at hact
    split at hact
    · cases (hinsert _ _ hact).2
    · exact absurd hact hbef
  | removeRegistrationWith identity =>
    obtain ⟨-, rfl⟩ := ite_some_none_eq_some.mp he
    unfold TableState.removeRegistrationWith at hact
    split at hact
    · exact absurd hact hbef
    · split at hact
      · exact absurd hact hbef
      · exact (herase _ hact).elim
  | beginShutdown =>
    obtain ⟨-, rfl⟩ := ite_some_none_eq_some.mp he
    cases hact
  | expireFinish =>
    rw [SessionRun.apply] at he
    split at he
    · split at he
      · cases he
        exact (herase _ hact).elim
      · cases he
        exact absurd hact hbef
    · cases he

/-- **A drop gives back the slot its start owns**, and changes no other. -/
theorem Owned.drops (h : s.Owned) (he : s.apply (.drop socket) = some s') :
    ∃ o ∈ s.starts, o.socket = socket ∧ s'.registry = s.registry ∧ s'.starts = s.without socket ∧
      ∀ id, s'.table.slots.lookup id =
        if s.table.slots.lookup id = some (.starting o.registration socket) then some (.registered o.registration)
        else s.table.slots.lookup id := by
  classical
  obtain ⟨o, ho, rfl, -, rfl⟩ := apply_drop he
  refine ⟨o, ho, rfl, rfl, rfl, fun id => ?_⟩
  dsimp only
  rw [h.drop_eq ho]
  by_cases hid : id = o.registration.id
  · subst hid
    by_cases howns : o.Owns s.table
    · rw [if_pos howns, lookup_insert]
      exact (if_pos howns).symm
    · rw [if_neg howns]
      exact (if_neg howns).symm
  · have hoth : s.table.slots.lookup id ≠ some (.starting o.registration o.socket) :=
      fun hslot => hid (h.keyed id _ hslot).symm
    rw [if_neg hoth]
    split
    · rw [lookup_insert_ne hid]
    · rfl

/-- **The sweep keeps what a client uses**: a slot that is starting or active, and its registration. -/
theorem Owned.expiry_keeps (h : s.Owned) (he : s.apply e = some s') (hexpiry : e.isExpiry = true)
    (hslot : s.table.slots.lookup id = some slot) (hused : slot.isRegistered = false) :
    s'.table.slots.lookup id = some slot ∧
      s'.registry.current slot.registration.toIdentity = s.registry.current slot.registration.toIdentity := by
  cases e with
  | register | removeIfCurrent | claim | claimCheck | claimTurn | activate | drop | removeRegistrationWith
  | beginShutdown => cases hexpiry
  | expireBegin =>
    obtain ⟨-, rfl⟩ := ite_some_none_eq_some.mp he
    exact ⟨hslot, rfl⟩
  | expireNext =>
    obtain ⟨-, htable, hreg⟩ := h.swept he
    rw [htable, hreg]
    exact ⟨hslot, rfl⟩
  | expireClone =>
    rw [SessionRun.apply] at he
    split at he
    · split at he
      all_goals
        cases he
        exact ⟨hslot, rfl⟩
    · cases he
  | expireRemove now =>
    rw [SessionRun.apply] at he
    split at he
    next sweep registration removeSlot hhold =>
      -- the sweep's registration is not the slot's
      have hoth : slot.registration.toIdentity ≠ registration.toIdentity := by
        intro hsame
        have hid : id = registration.id := (h.keyed id slot hslot).symm.trans (congrArg RegistrationIdentity.id hsame)
        rw [hid] at hslot
        rw [(h.holder _ hhold).1 slot hslot hsame] at hused
        cases hused
      have hcur := current_removeIfCurrent s.registry registration.toIdentity
        slot.registration.toIdentity now
      rw [if_neg hoth] at hcur
      split at he
      all_goals
        rename_i registry hremove
        rw [hremove] at hcur
        cases he
        exact ⟨hslot, hcur⟩
    · cases he
  | expireFinish =>
    rw [SessionRun.apply] at he
    split at he
    next sweep registration removeSlot hhold =>
      split at he
      next hremove =>
        cases he
        obtain ⟨slot', hslot', hregistered⟩ := (h.holder _ hhold).2 hremove
        have hid : id ≠ registration.id := by
          rintro rfl
          cases hslot.symm.trans hslot'
          rw [hregistered] at hused
          cases hused
        exact ⟨(lookup_erase_ne hid).trans hslot, rfl⟩
      · cases he
        exact ⟨hslot, rfl⟩
    · cases he

end SessionRun

/-- **Slots have one owner.**  In every state of every run at most one open start is of the generation of the slot of an
id.  A slot becomes active only by the start that owns its starting state; a drop changes only a slot that its own
claim left starting; and the sweep takes neither the slot nor the registration of a generation that is starting or
active. -/
theorem session_slot_ownership {timeout : Int} {s : SessionRun}
    (hrun : Relation.ReflTransGen SessionStep (.start timeout) s) :
    (∀ id slot, s.table.slots.lookup id = some slot →
      (s.starts.filter fun o => o.registration.sameGeneration slot.registration).length ≤ 1) ∧
    ∀ e s', s.apply e = some s' →
      (∀ id registration session, s'.table.slots.lookup id = some (.active registration session) →
        s.table.slots.lookup id ≠ some (.active registration session) →
        ∃ o ∈ s.starts, e = .activate o.socket session ∧ o.registration = registration ∧
          s.table.slots.lookup id = some (.starting registration o.socket)) ∧
      (∀ socket, e = .drop socket →
        ∃ o ∈ s.starts, o.socket = socket ∧ s'.registry = s.registry ∧ s'.starts = s.without socket ∧
          ∀ id, s'.table.slots.lookup id =
            if s.table.slots.lookup id = some (.starting o.registration socket) then some (.registered o.registration)
            else s.table.slots.lookup id) ∧
      (e.isExpiry = true → ∀ id slot, s.table.slots.lookup id = some slot → slot.isRegistered = false →
        s'.table.slots.lookup id = some slot ∧
          s'.registry.current slot.registration.toIdentity = s.registry.current slot.registration.toIdentity) := by
  have h := SessionRun.Owned.of_reach hrun
  refine ⟨fun id slot hslot => h.unique hslot, fun e s' he => ⟨?_, ?_, ?_⟩⟩
  · intro id registration session hactive hbefore
    exact h.activates he hactive hbefore
  · rintro socket rfl
    exact h.drops he
  · intro hexpiry id slot hslot hused
    exact h.expiry_keeps he hexpiry hslot hused

/-- **A starting slot has one start**, an open one, in every run.  After a shutdown no slot is left. -/
theorem starting_slot_has_start {timeout : Int} {s : SessionRun}
    (hrun : Relation.ReflTransGen SessionStep (.start timeout) s) :
    (∀ id registration socket, s.table.slots.lookup id = some (.starting registration socket) →
        ∃! o, o ∈ s.starts ∧ o.socket = socket ∧ o.registration = registration) ∧
      (s.table.shutdown = true → ∀ id, s.table.slots.lookup id = none) := by
  have h := SessionRun.Owned.of_reach hrun
  refine ⟨fun id registration socket hslot => ?_, h.empty⟩
  obtain ⟨o, ho, rfl, rfl⟩ := h.owner id registration socket hslot
  exact ⟨o, ⟨ho, rfl, rfl⟩, fun o' ho' => h.eq_of_socket ho'.1 ho ho'.2.1⟩

def sessionAfter (start : SessionRun) (es : List SessionEvent) : SessionRun :=
  (execEvents SessionRun.apply start es).getD start

def resumingId : Bytes := List.replicate 16 97

/-- The registration of a terminal with a live pty, and its generation `n`. -/
def resumingInfo : TerminalUserInfo :=
  { id := some (resumingId), passkey := some (List.replicate 32 98), ptyactive := some true }

def resumingRegistration (n : Nat) : Registration where
  id := resumingId
  key := List.replicate 32 98
  uid := 501
  gid := 20
  startupAck := false
  routerFraming := .upstream
  ptyActive := true
  hadReverseTunnels := false
  disconnectTimeoutSeconds := none
  identity := n

/-- A terminal registers and is claimed; it registers again and is claimed again; a sweep begins. -/
def reclaimEvents : List SessionEvent :=
  let claims (n : Nat) : List SessionEvent :=
    [.claim (resumingRegistration n), .claimCheck, .claimTurn, .claimCheck, .claimTurn]
  [.register resumingInfo 0 ⟨501, 20⟩ false 0] ++ claims 0 ++ [.register resumingInfo 1 ⟨501, 20⟩ true 5] ++ claims 1 ++
    [.expireBegin (10 ^ 12) [(resumingRegistration 1, 5)]]

/-- The first start is dropped, the sweep goes on, and the second start becomes active. -/
theorem session_slot_ownership_reclaimed :
    let s := sessionAfter (.start 30) reclaimEvents
    let slot : Slot := .starting (resumingRegistration 1) 1
    (s.starts.map (·.socket) = [1, 0] ∧ s.table.slots.lookup (resumingId) = some slot) ∧
      (s.starts.filter fun o => o.registration.sameGeneration (resumingRegistration 1)).length ≤ 1 ∧
      (∃ s', s.apply (.drop 0) = some s' ∧ s'.table.slots.lookup (resumingId) = some slot) ∧
      (∃ s', s.apply (.expireNext 0 false) = some s' ∧ s'.table.slots.lookup (resumingId) = some slot) ∧
      ∃ s', s.apply (.activate 1 9) = some s' ∧
        ∃ o ∈ s.starts, o.socket = 1 ∧ o.registration = resumingRegistration 1 := by
  intro s slot
  have hslot : s.table.slots.lookup (resumingId) = some slot := by decide +kernel
  have hrun : Relation.ReflTransGen SessionStep (.start 30) s := reach_getD .step reclaimEvents (by decide +kernel)
  obtain ⟨hone, hstep⟩ := session_slot_ownership hrun
  obtain ⟨dropped, hdropped⟩ : ∃ s', s.apply (.drop 0) = some s' :=
    Option.isSome_iff_exists.mp (by decide +kernel)
  obtain ⟨swept, hswept⟩ : ∃ s', s.apply (.expireNext 0 false) = some s' :=
    Option.isSome_iff_exists.mp (by decide +kernel)
  refine ⟨⟨by decide +kernel, hslot⟩, hone _ slot hslot, ⟨dropped, hdropped, ?_⟩,
    ⟨swept, hswept, ((hstep _ _ hswept).2.2 rfl _ slot hslot rfl).1⟩, ?_⟩
  · obtain ⟨o, -, -, -, -, hkept⟩ := (hstep _ _ hdropped).2.1 0 rfl
    rw [hkept, hslot, if_neg (by simp [slot])]
  · have hactive : ((s.apply (.activate 1 9)).map fun s' => s'.table.slots.lookup (resumingId)) =
        some (some (.active (resumingRegistration 1) 9)) := by decide +kernel
    obtain ⟨active, happly, hnow⟩ := Option.map_eq_some_iff.mp hactive
    obtain ⟨o, ho, hsocket, hregistration, -⟩ := (hstep _ _ happly).1 _ _ 9 hnow fun hbefore =>
      absurd (hslot.symm.trans hbefore) (by simp [slot])
    exact ⟨active, happly, o, ho, (SessionEvent.activate.inj hsocket).1.symm, hregistration⟩

theorem starting_slot_has_start_reclaimed :
    ∃! o, o ∈ (sessionAfter (.start 30) reclaimEvents).starts ∧ o.socket = 1 ∧ o.registration = resumingRegistration 1 :=
  (starting_slot_has_start (reach_getD .step reclaimEvents (by decide +kernel))).1 (resumingId) _ _
    (by decide +kernel)

end EternalTerminal
