import EternalTerminal.Net.SocketAccounts

/-!
# Net — a forwarded socket between two workers

Two forwarding workers that both advertised a window, and the lanes between them for one forwarded socket:
data and closes in one lane, credit in a priority lane, each in order.  The source worker waits for the
destination's response; what it read meanwhile is early data, which it sends when the response arrives.  What
was emitted and what came back as credit is kept as history.

Main results: `window_kept_iff`, `quiescent_reads`.
-/

namespace EternalTerminal
open Machine Bytes History SocketIo List Option Relation

/-! ### The system -/

/-- A connection that waits for the destination's response. -/
structure Pending where
  early : Bytes
  halfCloseOnEof : Bool

/-- One worker's part of the socket, and the lanes that lead away from it. -/
structure Side where
  pending : Option Pending
  socket : Option SocketIo
  held : List Bytes
  sent : List PortForwardData
  credits : List PortForwardData
  /-- All data emitted so far. -/
  emitted : FlowWindow
  /-- All credit that came back so far. -/
  credited : FlowWindow

namespace Side

/-- Emitted, and not yet both drained and credited back. -/
def outstandingBytes (a : Side) : Int := a.emitted.bytes - a.credited.bytes

def outstandingPackets (a : Side) : Int := a.emitted.packets - a.credited.packets

def handle (a : Side) (h : Handled) : Side :=
  { a with
    socket := h.socket
    held := a.held ++ h.held
    sent := a.sent ++ h.emitted
    credits := a.credits ++ h.credits
    emitted := ⟨a.emitted.bytes + total PortForwardData.bytes h.emitted,
      a.emitted.packets + total PortForwardData.packets h.emitted⟩ }

end Side

/-- The two sides of one forwarded socket. -/
structure Pair where
  socketId : Int
  side : Role → Side

/-- What can happen next, at the worker with a role. -/
inductive PairEvent where
  | respond
  | service (role : Role) (event : ReadySocket) (writes : List WriteResult) (turns : List ReadTurn)
  | flushQueuedWrites (role : Role) (writes : List WriteResult)
  | flushDueCredits (role : Role)
  | flushHeld (role : Role)
  | receive (role : Role) (header : Option Bytes)
  | receiveCredit (role : Role)

namespace Pair

/-- The worker with the role has `a`, its peer `b`. -/
def set (p : Pair) (role : Role) (a b : Side) : Pair := { p with side := fun r => if r = role then a else b }

def apply (p : Pair) : PairEvent → Option Pair
  | .respond => do
      let pending ← (p.side .source).pending
      let a := { p.side .source with pending := none }
      let h := destinationResponse p.socketId (some advertisedWindow) pending.early pending.halfCloseOnEof
      return p.set .source (a.handle h) (p.side .destination)
  | .service role event writes turns =>
    let a := p.side role
    some (p.set role (a.handle (serviceEvent role p.socketId a.socket event writes turns)) (p.side role.peer))
  | .flushQueuedWrites role writes =>
    let a := p.side role
    some (p.set role (a.handle (flushQueuedWrite role p.socketId a.socket writes)) (p.side role.peer))
  | .flushDueCredits role =>
    let a := p.side role
    some (p.set role (a.handle (flushDueCredits role p.socketId a.socket)) (p.side role.peer))
  | .flushHeld role =>
    let a := p.side role
    let r := flushHeldOf a.socket a.held
    some (p.set role { a with socket := r.1, held := r.2 } (p.side role.peer))
  | .receive role header =>
    let a := p.side role
    let b := p.side role.peer
    -- the response comes before everything else the destination sends
    if a.pending.isSome then none
    else match b.sent with
      | [] => none
      | d :: rest =>
        some (p.set role (a.handle (handleData role p.socketId header a.socket d)) { b with sent := rest })
  | .receiveCredit role =>
    let a := p.side role
    let b := p.side role.peer
    match b.credits with
    | [] => none
    | d :: rest =>
      let a := a.handle (receiveData role p.socketId a.socket d)
      let credited := ⟨a.credited.bytes + d.creditBytes, a.credited.packets + d.creditPackets⟩
      some (p.set role { a with credited := credited } { b with credits := rest })

/-- The destination is connected and its response is on the way. -/
def start (socketId : Int) (pending : Pending) (bindReplies : Option AgentSessionBindReplies) : Pair where
  socketId := socketId
  side
    | .source => ⟨some pending, none, [], [], [], ⟨0, 0⟩, ⟨0, 0⟩⟩
    | .destination =>
      ⟨none, some (.new .destination socketId (decodeWindow (some advertisedWindow)) bindReplies), [], [], [],
        ⟨0, 0⟩, ⟨0, 0⟩⟩

def Step (p p' : Pair) : Prop := ∃ e, p.apply e = some p'

theorem forall_set {P : Side → Side → Prop} {p : Pair} {role : Role} {a b : Side} (hab : P a b) (hba : P b a) (r : Role) :
    P ((p.set role a b).side r) ((p.set role a b).side r.peer) := by
  cases role <;> cases r <;> assumption

end Pair
variable {d : PortForwardData} {op : Option SocketIo → Handled} {p : Pair} {n : Count → Int} {a s t : Side}

/-! ### What every side keeps -/

/-- What holds of each side by itself. -/
structure SideSound (a : Side) : Prop where
  socket : ∀ x, a.socket = some x → Sound x ∧ ∀ u : Count, x.window u = u.limit
  sent : ∀ p ∈ a.sent, p.window = none
  credits : ∀ p ∈ a.credits, p.Credit
  held : ∀ buffer ∈ a.held, buffer ≠ []
  pending : a.pending.isSome = true → a.socket = none ∧ a.sent = [] ∧ a.held = []

theorem handle_idle (h : a.socket = none) : a.handle ⟨none, [], [], [], []⟩ = a := by
  simp only [Side.handle, append_nil, total_nil, Int.add_zero, ← h]

theorem sideSound_handle (h : SideSound a) (hop : Operates n op) : SideSound (a.handle (op a.socket)) := by
  cases hsock : a.socket with
  | none =>
    rw [hop.none, handle_idle hsock]
    exact h
  | some x =>
    obtain ⟨hx, hlim⟩ := h.socket x hsock
    have hhan := hop.handles x hx
    refine ⟨fun x' hx' => ?_, forall_mem_append.mpr ⟨h.sent, hhan.window⟩,
      forall_mem_append.mpr ⟨h.credits, hhan.credits⟩, forall_mem_append.mpr ⟨h.held, hhan.held⟩, fun hpend => ?_⟩
    · obtain ⟨hsd, hwin, -, -⟩ := hhan.kept x' hx'
      exact ⟨hsd, fun u => (hwin u).trans (hlim u)⟩
    · exact nomatch (h.pending hpend).1.symm.trans hsock

/-! ### The window -/

/-- The window of the direction from `s` to `t`. -/
structure WindowKept (s t : Side) : Prop where
  bytes_le : s.outstandingBytes ≤ windowBytes
  packets_le : s.outstandingPackets ≤ windowPackets
  inFlight : ∀ x, s.socket = some x →
    x.inFlightBytes = s.outstandingBytes ∧ x.inFlightPackets = s.outstandingPackets
  queue : t.held = [] ∧ ∀ y, t.socket = some y → y.out.length ≤ outQueuePackets

def Side.outstanding (a : Side) : Count → Int
  | .bytes => a.outstandingBytes
  | .packets => a.outstandingPackets

/-- What `s` emitted and was not credited for covers what is on its way to `t`, at `t`, and on its way back. -/
structure Covered (s t : Side) : Prop where
  le : ∀ u : Count, s.outstanding u ≤ u.limit
  inFlight : ∀ x, s.socket = some x → ∀ u, x.inFlight u = s.outstanding u
  owed : ∀ u : Count, total u.data s.sent + t.socket.elim 0 (·.owed u) + total u.credit t.credits ≤ s.outstanding u
  held : t.held = []
  pending : ∀ pending, s.pending = some pending → pending.early = [] ∧ ∀ u, s.outstanding u = 0

theorem outstanding_handle (a : Side) (h : Handled) (u : Count) :
    (a.handle h).outstanding u = a.outstanding u + total u.data h.emitted := by
  cases u <;> dsimp only [Side.outstanding, Side.outstandingBytes, Side.outstandingPackets, Side.handle, Count.data] <;>
    ring

/-- The sender's side of an operation. -/
theorem covered_send (hs : SideSound s) (h : Covered s t) (hop : Operates n op) (sent : List PortForwardData) :
    Covered (s.handle (op s.socket)) { t with sent := sent } := by
  cases hsock : s.socket with
  | none =>
    rw [hop.none, handle_idle hsock]
    exact { h with }
  | some x =>
    obtain ⟨hx, hlim⟩ := hs.socket x hsock
    have hhan := hop.handles x hx
    have hfly := h.inFlight x hsock
    have hsent : (s.handle (op (some x))).sent = s.sent ++ (op (some x)).emitted := rfl
    refine ⟨fun u => ?_, fun x' hx' u => ?_, fun u => ?_, h.held, fun pending hpend => ?_⟩
    · rw [outstanding_handle, ← hfly, ← hlim]
      exact hhan.le u
    · rw [outstanding_handle, ← hfly]
      exact (hhan.kept x' hx').inFlight u
    · have howed := h.owed u
      rw [outstanding_handle, hsent, total_append]
      dsimp only
      omega
    · exact nomatch (hs.pending (isSome_iff_exists.mpr ⟨pending, hpend⟩)).1.symm.trans hsock

theorem lane_nonneg (u : Count) (l : List PortForwardData) : 0 ≤ total u.data l :=
  total_nonneg _ fun p _ => u.data_nonneg p

theorem buffers_nonneg (u : Count) (l : List Bytes) : 0 ≤ total u.buffer l := total_nonneg _ fun b _ => u.buffer_nonneg b

theorem PortForwardData.Credit.pos (h : d.Credit) (u : Count) : 0 < u.credit d := by
  cases u with
  | bytes => exact h.bytes_pos
  | packets => exact h.packets_pos

theorem credits_nonneg {l : List PortForwardData} (h : ∀ d ∈ l, d.Credit) (u : Count) : 0 ≤ total u.credit l :=
  total_nonneg _ fun d hd => Int.le_of_lt ((h d hd).pos u)

variable {sent rest : List PortForwardData} {pending : Pending} {p' : Pair} {y : SocketIo}

/-- A covered socket has room in its queue. -/
theorem Covered.room (ht : SideSound t) (h : Covered s t) (hy : t.socket = some y) :
    y.out.length < outQueuePackets := by
  have hcredit := (ht.socket y hy).1.credit.packets_nonneg
  have hcred := credits_nonneg ht.credits .packets
  have hlane := lane_nonneg .packets s.sent
  have howed := h.owed .packets
  have hle : s.outstanding .packets ≤ windowPackets := h.le .packets
  rw [hy, elim_some, SocketIo.owed] at howed
  unfold windowPackets at hle
  unfold outQueuePackets
  omega

/-- The receiver's side of an operation that takes data off the lane. -/
theorem covered_receive (ht : SideSound t) (h : Covered s t) (hop : Operates n op)
    (hsent : ∀ u : Count, total u.data sent + n u = total u.data s.sent) (hn : ∀ u, 0 ≤ n u) :
    Covered { s with sent := sent } (t.handle (op t.socket)) := by
  have howed : ∀ u : Count, total u.data sent + n u + t.socket.elim 0 (·.owed u) + total u.credit t.credits ≤
      s.outstanding u := fun u => by
    rw [hsent]
    exact h.owed u
  refine { h with owed := fun u => ?_, held := ?_ }
  · have howed := howed u
    have hn := hn u
    show _ ≤ s.outstanding u
    cases ht' : t.socket with
    | none =>
      rw [hop.none, handle_idle ht']
      dsimp only
      omega
    | some y =>
      have hle := (hop.handles y (ht.socket y ht').1).owed_le u
      have hheld := buffers_nonneg u (op (some y)).held
      rw [ht', elim_some] at howed
      simp only [Side.handle, total_append]
      unfold Handled.owed at hle
      omega
  · cases ht' : t.socket with
    | none =>
      rw [hop.none, handle_idle ht']
      exact h.held
    | some y =>
      show t.held ++ (op (some y)).held = []
      rw [h.held, hop.held y (h.room ht ht'), append_nil]

/-- The side of a worker when credit has come back. -/
def Side.credit (a : Side) (d : PortForwardData) : Side :=
  { a with
    socket := a.socket.map (·.applyDelivery ⟨min d.creditBytes windowBytes, min d.creditPackets windowPackets⟩)
    credited := ⟨a.credited.bytes + d.creditBytes, a.credited.packets + d.creditPackets⟩ }

theorem handle_credit (role : Role) (socketId : Int) (a : Side) (hd : d.Credit) :
    { a.handle (receiveData role socketId a.socket d) with
      credited := ⟨a.credited.bytes + d.creditBytes, a.credited.packets + d.creditPackets⟩ } = a.credit d := by
  rw [receiveData_credit role socketId a.socket hd]
  simp only [Side.handle, Side.credit, append_nil, total_nil, Int.add_zero]

theorem delivered_spec {x : SocketIo} (hx : Sound x) (hd : d.Credit) :
    (∀ u : Count, (x.applyDelivery ⟨min d.creditBytes windowBytes, min d.creditPackets windowPackets⟩).inFlight u =
        max (x.inFlight u - min (u.credit d) u.limit) 0) ∧
      Sound (x.applyDelivery ⟨min d.creditBytes windowBytes, min d.creditPackets windowPackets⟩) := by
  have hbs := hd.bytes_pos
  have hpkts := hd.packets_pos
  have hspec := applyDelivery_spec hx ⟨min d.creditBytes windowBytes, min d.creditPackets windowPackets⟩
    (lt_min hbs (by decide)) (lt_min hpkts (by decide)) (Int.min_le_right _ _) (Int.min_le_right _ _)
  refine ⟨fun u => ?_, hspec.2.2⟩
  cases u with
  | bytes => exact hspec.1
  | packets => exact hspec.2.1

theorem sideSound_credit (h : SideSound a) (hd : d.Credit) :
    SideSound (a.credit d) := by
  refine ⟨fun x' hx' => ?_, h.sent, h.credits, h.held, fun hpend => ?_⟩
  · obtain ⟨x, hx, rfl⟩ := map_eq_some_iff.mp hx'
    obtain ⟨hsd, hlim⟩ := h.socket x hx
    refine ⟨(delivered_spec hsd hd).2, fun u => ?_⟩
    cases u with
    | bytes => exact hlim .bytes
    | packets => exact hlim .packets
  · obtain ⟨hnone, hrest⟩ := h.pending hpend
    exact ⟨by rw [Side.credit, hnone]; rfl, hrest⟩

theorem sideSound_pop (h : SideSound a) {credits : List PortForwardData} (hsent : sent <:+ a.sent)
    (hcred : credits <:+ a.credits) : SideSound { a with sent := sent, credits := credits } := by
  refine ⟨h.socket, fun p hp => h.sent p (hsent.subset hp), fun p hp => h.credits p (hcred.subset hp), h.held,
    fun hpend => ?_⟩
  obtain ⟨hnone, hnil, hheld⟩ := h.pending hpend
  rw [hnil] at hsent
  exact ⟨hnone, suffix_nil.mp hsent, hheld⟩

theorem socketOwed_nonneg (ht : SideSound t) (u : Count) : 0 ≤ t.socket.elim 0 (·.owed u) := by
  cases ht' : t.socket with
  | none => exact Int.le_refl 0
  | some y => exact (ht.socket y ht').1.owed_nonneg u

/-- The sender's side of credit that comes back. -/
theorem covered_credit (hs : SideSound s) (ht : SideSound t) (h : Covered s t) (hcred : t.credits = d :: rest) :
    Covered (s.credit d) { t with credits := rest } := by
  have hd := ht.credits d (hcred ▸ mem_cons_self)
  have hrest : ∀ p ∈ rest, p.Credit := fun p hp => ht.credits p (hcred ▸ mem_cons_of_mem _ hp)
  have hsent : (s.credit d).sent = s.sent := rfl
  have hout : ∀ u, (s.credit d).outstanding u = s.outstanding u - u.credit d := by
    intro u
    cases u <;> simp only [Side.outstanding, Side.outstandingBytes, Side.outstandingPackets, Side.credit, Count.credit] <;>
      omega
  have howed : ∀ u : Count, total u.data s.sent + t.socket.elim 0 (·.owed u) + (u.credit d + total u.credit rest) ≤
      s.outstanding u := fun u => by
    have := h.owed u
    rwa [hcred, total_cons] at this
  -- the lanes and the peer hold nothing negative, so the credit is within what is outstanding
  have hin : ∀ u, u.credit d ≤ s.outstanding u := fun u => by
    have := howed u
    have := lane_nonneg u s.sent
    have := socketOwed_nonneg ht u
    have := credits_nonneg hrest u
    omega
  refine ⟨fun u => ?_, fun x' hx' u => ?_, fun u => ?_, h.held, fun pending hpend => ?_⟩
  · have := hd.pos u
    have := h.le u
    rw [hout]
    omega
  · obtain ⟨x, hx, rfl⟩ := map_eq_some_iff.mp hx'
    have := hin u
    have := h.le u
    rw [(delivered_spec (hs.socket x hx).1 hd).1, h.inFlight x hx, hout]
    omega
  · have := howed u
    rw [hsent, hout]
    dsimp only
    omega
  · have := hin .bytes
    have := hd.pos .bytes
    have := (h.pending pending hpend).2 .bytes
    omega

/-- Credit does not concern what its receiver owes. -/
theorem socketOwed_credit (t : Side) (d : PortForwardData) (u : Count) :
    (t.credit d).socket.elim 0 (·.owed u) = t.socket.elim 0 (·.owed u) := by
  unfold Side.credit
  cases t.socket with
  | none => rfl
  | some y => cases u <;> rfl

theorem covered_credited (h : Covered s t) (credits : List PortForwardData) (d : PortForwardData) :
    Covered { s with credits := credits } (t.credit d) := by
  refine { h with owed := fun u => ?_ }
  rw [socketOwed_credit]
  exact h.owed u

/-- An active socket that has neither sent nor received. -/
theorem sound_new (role : Role) (socketId : Int) (bindReplies : Option AgentSessionBindReplies) (halfCloseOnEof : Bool) :
    Sound { SocketIo.new role socketId (decodeWindow (some advertisedWindow)) bindReplies with
        halfCloseOnEof := halfCloseOnEof } ∧
      ∀ u : Count, { SocketIo.new role socketId (decodeWindow (some advertisedWindow)) bindReplies with
        halfCloseOnEof := halfCloseOnEof }.window u = u.limit := by
  have hbs : (0 : Int) ≤ windowBytes := by decide
  have hpkts : (0 : Int) ≤ windowPackets := by decide
  have hmax : (0 : Int) ≤ i64Max := by decide
  exact ⟨⟨⟨Int.le_refl 0, Int.le_refl 0, hbs, hpkts, Int.le_refl _, Int.le_refl _⟩,
    ⟨rfl, Int.le_refl 0, Int.le_refl 0, hmax, hmax, Iff.rfl⟩, nofun, rfl, nofun⟩,
    fun u => by cases u <;> rfl⟩

/-- The side of a worker whose connection was answered. -/
def Side.answered (a : Side) (socketId : Int) (pending : Pending) : Side :=
  { a with pending := none }.handle
    (destinationResponse socketId (some advertisedWindow) pending.early pending.halfCloseOnEof)

theorem credits_answered (a : Side) (socketId : Int) (pending : Pending) :
    (a.answered socketId pending).credits = a.credits ∧ (a.answered socketId pending).held = a.held :=
  ⟨append_nil _, append_nil _⟩

/-- Early data is all that is sent with the answer. -/
theorem emitted_answer {socketId : Int}
    (hd : d ∈ (destinationResponse socketId (some advertisedWindow) pending.early pending.halfCloseOnEof).emitted) :
    d.Plain ∧ d.window = none := by
  unfold destinationResponse at hd
  split at hd
  · exact nomatch hd
  · obtain rfl := mem_singleton.mp hd
    exact ⟨plain_sendData _ _ _, rfl⟩

theorem sideSound_answered (h : SideSound a) (socketId : Int) (pending : Pending) :
    SideSound (a.answered socketId pending) := by
  obtain ⟨hcred, hheld⟩ := credits_answered a socketId pending
  refine ⟨fun x hx => ?_, forall_mem_append.mpr ⟨h.sent, fun p hp => (emitted_answer hp).2⟩,
    hcred ▸ h.credits, hheld ▸ h.held, nofun⟩
  cases hx
  exact sound_new .source socketId none pending.halfCloseOnEof

/-- The side of a worker that retried what it held back. -/
def Side.retried (a : Side) : Side :=
  { a with socket := (flushHeldOf a.socket a.held).1, held := (flushHeldOf a.socket a.held).2 }

theorem retried_of_held (h : a.held = []) : a.retried = a := by
  cases a
  cases h
  rfl

/-! ### What a step can do -/

namespace Side

/-- The worker reads its local socket, or will once the response arrives. -/
def Reading (a : Side) : Prop := a.pending.isSome = true ∨ ∃ x, a.socket = some x ∧ x.reading = true

def Present (a : Side) : Prop := a.pending.isSome = true ∨ a.socket.isSome = true

def inFlight (a : Side) (u : Count) : Int := a.socket.elim 0 (·.inFlight u)

/-- Received, and not yet returned. -/
def owed (a : Side) (u : Count) : Int :=
  a.socket.elim 0 (·.owed u) + total u.buffer a.held + total u.credit a.credits

end Side

/-- The step of a pair whose sides are sound: the source is answered, an operation takes data off the lane, held data
is retried, or credit comes back. -/
inductive PairMove (p : Pair) : Pair → Prop where
  | answer {pending : Pending} (hpending : (p.side .source).pending = some pending) :
      PairMove p (p.set .source ((p.side .source).answered p.socketId pending) (p.side .destination))
  | operate (role : Role) {op : Option SocketIo → Handled} {n : Count → Int} {rest : List PortForwardData}
      (hop : Operates n op) (hn : ∀ u, 0 ≤ n u) (hrest : rest <:+ (p.side role.peer).sent)
      (htotal : ∀ u : Count, total u.data rest + n u = total u.data (p.side role.peer).sent)
      (hpending : (p.side role).pending.isSome = true → ∀ u, n u = 0)
      (hdelivers : (∀ d ∈ (p.side role.peer).sent, d.Plain) → ∀ y, Sound y → Delivers y n (op (some y)))
      (hends : ((p.side role).handle (op (p.side role).socket)).Reading → (∀ d ∈ rest, ¬d.Ends) →
        ∀ d ∈ (p.side role.peer).sent, ¬d.Ends) :
      PairMove p (p.set role ((p.side role).handle (op (p.side role).socket)) { p.side role.peer with sent := rest })
  | retry (role : Role) : PairMove p (p.set role (p.side role).retried (p.side role.peer))
  | credit (role : Role) {d : PortForwardData} {rest : List PortForwardData} (hd : d.Credit)
      (hcredits : (p.side role.peer).credits = d :: rest) :
      PairMove p (p.set role ((p.side role).credit d) { p.side role.peer with credits := rest })

/-- An operation that takes nothing off the lane. -/
theorem PairMove.idle (role : Role) (hop : Operates (fun _ => 0) op)
    (hdel : ∀ y, Sound y → Delivers y (fun _ => 0) (op (some y))) :
    PairMove p (p.set role ((p.side role).handle (op (p.side role).socket)) (p.side role.peer)) :=
  .operate role hop (fun _ => Int.le_refl 0) (suffix_refl _) (fun _ => Int.add_zero _) (fun _ _ => rfl)
    (fun _ => hdel) fun _ => id

theorem pairMove_of_step (hsd : ∀ r, SideSound (p.side r)) (hstep : p.Step p') : PairMove p p' := by
  obtain ⟨e, he⟩ := hstep
  cases e with
  | respond =>
    obtain ⟨pending, hpend, heq⟩ := bind_eq_some_iff.mp he
    cases heq
    exact .answer hpend
  | service role event writes turns =>
    cases he
    exact .idle role (operates_service role p.socketId event writes turns)
      fun y hy => (serviceEvent_spec role p.socketId hy event writes turns).2
  | flushQueuedWrites role writes =>
    cases he
    exact .idle role (operates_flushQueuedWrite role p.socketId writes)
      fun y hy => (flushQueuedWrite_spec role p.socketId hy writes).2
  | flushDueCredits role =>
    cases he
    exact .idle role (operates_flushDueCredits role p.socketId) fun y hy => (flushDueCredits_spec role p.socketId hy).2
  | flushHeld role =>
    cases he
    exact .retry role
  | receive role header =>
    simp only [Pair.apply] at he
    split at he
    · cases he
    rename_i hact
    split at he
    · cases he
    rename_i d rest hsent
    cases he
    have hd : d ∈ (p.side role.peer).sent := hsent ▸ mem_cons_self
    have hwin := (hsd role.peer).sent d hd
    refine .operate role (operates_handleData role p.socketId header hwin) (fun u => u.data_nonneg d)
      (hsent ▸ suffix_cons d rest) (fun u => ?_) (fun hpend => absurd hpend hact)
      (fun hpl y hy => (handleData_spec role p.socketId header hy hwin).2 (hpl d hd))
      fun hrd hgd q hq => ?_
    · rw [hsent, total_cons]
      exact Int.add_comm _ _
    · rw [hsent] at hq
      rcases mem_cons.mp hq with rfl | hq
      · -- the announcement that was read stops the reading
        intro hends
        rcases hrd with hpend | ⟨x', hx', hx'reading⟩
        · exact hact hpend
        · rw [handleData_ends role p.socketId header (p.side role).socket hends hwin hx'] at hx'reading
          exact nomatch hx'reading
      · exact hgd q hq
  | receiveCredit role =>
    simp only [Pair.apply] at he
    split at he
    · cases he
    rename_i d rest hcred
    have hd := (hsd role.peer).credits d (hcred ▸ mem_cons_self)
    have hcredit := handle_credit role p.socketId (p.side role) hd
    dsimp only [Side.handle] at he hcredit
    rw [hcredit] at he
    cases he
    exact .credit role hd hcred

theorem sideSound_retried (h : SideSound a) : SideSound a.retried := by
  unfold Side.retried
  cases hsock : a.socket with
  | none =>
    rw [flushHeldOf_none]
    exact ⟨fun _ hx => (nomatch hx), h.sent, h.credits, fun _ hb => (nomatch hb),
      fun hpend => ⟨rfl, (h.pending hpend).2.1, rfl⟩⟩
  | some x =>
    obtain ⟨hx, hlim⟩ := h.socket x hsock
    obtain ⟨x', hx', hret⟩ := flushHeldOf_spec hx h.held
    refine ⟨fun y hy => ?_, h.sent, h.credits, fun b hb => h.held b (hret.subset b hb), fun hpend => ?_⟩
    · obtain rfl : x' = y := Option.some.inj (hx'.symm.trans hy)
      exact ⟨hret.sound, fun u => (hret.sender.counts u).1.trans (hlim u)⟩
    · exact nomatch (h.pending hpend).1.symm.trans hsock

theorem sideSound_set {role : Role} {b : Side} (ha : SideSound a) (hb : SideSound b) (r : Role) :
    SideSound ((p.set role a b).side r) := by
  unfold Pair.set
  dsimp only
  split <;> assumption

theorem sideSound_move (h : ∀ r, SideSound (p.side r)) (hmove : PairMove p p') (r : Role) :
    SideSound (p'.side r) := by
  cases hmove with
  | answer hpend => exact sideSound_set (sideSound_answered (h .source) p.socketId _) (h .destination) r
  | operate role hop hn hrest =>
    exact sideSound_set (sideSound_handle (h role) hop) (sideSound_pop (h role.peer) hrest (suffix_refl _)) r
  | retry role => exact sideSound_set (sideSound_retried (h role)) (h role.peer) r
  | credit role hd hcred =>
    have hpop := sideSound_pop (h role.peer) (suffix_refl _) (hcred ▸ suffix_cons _ _)
    exact sideSound_set (sideSound_credit (h role) hd) hpop r

/-- A relation of each side to its peer also holds of the peer. -/
theorem Pair.back {P : Side → Side → Prop} (h : ∀ r : Role, P (p.side r) (p.side r.peer)) (role : Role) :
    P (p.side role.peer) (p.side role) := by
  cases role with
  | source => exact h .destination
  | destination => exact h .source

/-! ### The window over a run -/

/-- Both sides are sound, and both directions are covered. -/
structure PairCovered (p : Pair) : Prop where
  sound : ∀ r, SideSound (p.side r)
  covered : ∀ r, Covered (p.side r) (p.side r.peer)

/-- The response arrives, and no early data is sent. -/
theorem PairCovered.answer (h : PairCovered p) (hpend : (p.side .source).pending = some pending) :
    Covered ((p.side .source).answered p.socketId pending) (p.side .destination) ∧
      Covered (p.side .destination) ((p.side .source).answered p.socketId pending) := by
  obtain ⟨hear, hzero⟩ := (h.covered .source).pending pending hpend
  obtain ⟨hnone, -⟩ := (h.sound .source).pending (isSome_iff_exists.mpr ⟨pending, hpend⟩)
  obtain ⟨a, ha⟩ : ∃ a, (p.side .source).answered p.socketId pending = a := ⟨_, rfl⟩
  obtain ⟨hcred, hheld⟩ := credits_answered (p.side .source) p.socketId pending
  rw [ha] at hcred hheld ⊢
  constructor
  · obtain ⟨h₁, -, h₃, h₄, -⟩ := h.covered .source
    have hemp : (destinationResponse p.socketId (some advertisedWindow) pending.early pending.halfCloseOnEof).emitted =
        [] := by
      rw [hear]
      rfl
    have hout : ∀ u, a.outstanding u = (p.side .source).outstanding u := by
      intro u
      rw [← ha, Side.answered, outstanding_handle, hemp]
      cases u <;> exact Int.add_zero _
    have hsent : a.sent = (p.side .source).sent := by
      rw [← ha, Side.answered, Side.handle, hemp]
      exact append_nil _
    refine ⟨fun u => (hout u).trans_le (h₁ u), fun x hx u => ?_, fun u => ?_, h₄, fun _ hsome => ?_⟩
    · rw [← ha] at hx
      cases hx
      rw [hout, hzero]
      cases u <;> rfl
    · rw [hout, hsent]
      exact h₃ u
    · rw [← ha] at hsome
      cases hsome
  · have hcov := h.covered .destination
    refine { hcov with owed := fun u => ?_, held := hheld.trans hcov.held }
    have howed : a.socket.elim 0 (·.owed u) = 0 := by
      rw [← ha]
      cases u <;> rfl
    have hpeer : (p.side Role.destination.peer).socket = none := hnone
    have hle := hcov.owed u
    rw [hpeer] at hle
    rw [hcred, howed]
    exact hle

theorem pairCovered_step (h : PairCovered p) (hstep : p.Step p') : PairCovered p' := by
  have hback := Pair.back h.covered
  have hmove := pairMove_of_step h.sound hstep
  refine ⟨sideSound_move h.sound hmove, ?_⟩
  cases hmove with
  | answer hpend => exact Pair.forall_set (h.answer hpend).1 (h.answer hpend).2
  | operate role hop hn hrest htot hpend hdel hends =>
    exact Pair.forall_set (covered_send (h.sound role) (h.covered role) hop _)
      (covered_receive (h.sound role) (hback role) hop htot hn)
  | retry role =>
    rw [retried_of_held (hback role).held]
    exact Pair.forall_set (h.covered role) (hback role)
  | credit role hd hcred =>
    exact Pair.forall_set (covered_credit (h.sound role) (h.sound role.peer) (h.covered role) hcred)
      (covered_credited (hback role) _ _)

theorem sideSound_start (socketId : Int) (pending : Pending) (bindReplies : Option AgentSessionBindReplies) (r : Role) :
    SideSound ((Pair.start socketId pending bindReplies).side r) := by
  cases r with
  | source =>
    exact ⟨fun _ hx => (nomatch hx), fun _ hp => (nomatch hp), fun _ hp => (nomatch hp), fun _ hb => (nomatch hb),
      fun _ => ⟨rfl, rfl, rfl⟩⟩
  | destination =>
    refine ⟨fun x hx => ?_, fun _ hp => (nomatch hp), fun _ hp => (nomatch hp), fun _ hb => (nomatch hb),
      fun h => nomatch h⟩
    cases hx
    exact sound_new .destination socketId bindReplies false

theorem pairCovered_start (socketId : Int) (hear : pending.early = [])
    (bindReplies : Option AgentSessionBindReplies) : PairCovered (Pair.start socketId pending bindReplies) := by
  have hzero : ∀ r u, ((Pair.start socketId pending bindReplies).side r).outstanding u = 0 := fun r u => by
    cases r <;> cases u <;> rfl
  have hle : ∀ r (u : Count), ((Pair.start socketId pending bindReplies).side r).outstanding u ≤ u.limit := fun r u =>
    (hzero r u).trans_le (Int.le_of_lt u.limit_bounds.1)
  refine ⟨sideSound_start socketId pending bindReplies, fun r => ?_⟩
  cases r with
  | source =>
    refine ⟨hle .source, fun _ hx => (nomatch hx), fun u => by cases u <;> exact Int.le_refl 0, rfl, ?_⟩
    intro pending' hpend
    cases hpend
    exact ⟨hear, hzero .source⟩
  | destination =>
    refine ⟨hle .destination, fun x hx u => ?_, fun u => by cases u <;> exact Int.le_refl 0, rfl, nofun⟩
    cases hx
    cases u <;> rfl

theorem PairCovered.windowKept (h : PairCovered p) (r : Role) : WindowKept (p.side r) (p.side r.peer) := by
  have hcov := h.covered r
  exact ⟨hcov.le .bytes, hcov.le .packets,
    fun x hx => ⟨hcov.inFlight x hx .bytes, hcov.inFlight x hx .packets⟩, hcov.held,
    fun y hy => Nat.le_of_lt (hcov.room (h.sound r.peer) hy)⟩

/-- **The window is kept in every run exactly when there is no early data.**  Early data is sent without being
counted in flight. -/
theorem window_kept_iff (socketId : Int) (pending : Pending) (bindReplies : Option AgentSessionBindReplies) :
    (∀ p, ReflTransGen Pair.Step (Pair.start socketId pending bindReplies) p →
      ∀ r, WindowKept (p.side r) (p.side r.peer)) ↔ pending.early = [] := by
  constructor
  · intro h
    by_contra hearly
    have hrespond : (Pair.start socketId pending bindReplies).Step _ := ⟨.respond, rfl⟩
    obtain ⟨hib, -⟩ := (h _ (.single hrespond) .source).inFlight _ rfl
    have hemitted : (destinationResponse socketId (some advertisedWindow) pending.early pending.halfCloseOnEof).emitted =
        [sendData .source socketId pending.early false none] :=
      if_neg fun hempty => hearly (List.isEmpty_iff.mp hempty)
    have hout := outstanding_handle { (Pair.start socketId pending bindReplies).side .source with pending := none }
      (destinationResponse socketId (some advertisedWindow) pending.early pending.halfCloseOnEof) .bytes
    rw [hemitted, total_cons, total_nil, data_sendData _ _ _ hearly] at hout
    have hzero : (0 : Int) = 0 - 0 + (pending.early.length + 0) := hib.trans hout
    have hpos : 0 < pending.early.length := length_pos_iff.mpr hearly
    omega
  · intro hearly p hrun
    have hcovered := reach_invariant hrun (pairCovered_start socketId hearly bindReplies)
      fun _ _ => pairCovered_step
    exact hcovered.windowKept

/-- One byte is read from the source's local socket. -/
def readByte : PairEvent := .service .source ⟨true, false, false⟩ [] [⟨false, [.bytes [0]], none⟩]

/-- **Early data exceeds the window**: after one byte of it, a full window of packets is read on top. -/
theorem early_data_exceeds : ∃ p, ReflTransGen Pair.Step (Pair.start 1 ⟨[0], false⟩ none) p ∧
    windowPackets < (p.side .source).outstandingPackets := by
  have hrun : ((execEvents Pair.apply (Pair.start 1 ⟨[0], false⟩ none)
      (.respond :: List.replicate 127 readByte)).any fun p =>
        decide (windowPackets < (p.side .source).outstandingPackets)) = true := by
    decide +kernel
  obtain ⟨p, hp, hexceeds⟩ := (Option.any_eq_true _ _).mp hrun
  exact ⟨p, reach_of_exec (fun _ e _ he => ⟨e, he⟩) _ hp, of_decide_eq_true hexceeds⟩

/-! ### Credit that is held back -/

/-- As long as `s` reads, what it has in flight is on its way to `t`, owed by `t`, or on its way back: nothing
is lost until an end of the socket is announced. -/
structure Backed (s t : Side) : Prop where
  plain : s.Reading → ∀ p ∈ s.sent, p.Plain
  isWriteClosed : s.Reading → (∀ p ∈ t.sent, ¬p.Ends) → ∀ y, t.socket = some y → y.isWriteClosed = false
  le : s.Reading → (∀ p ∈ t.sent, ¬p.Ends) → t.Present → ∀ u, s.inFlight u ≤ total u.data s.sent + t.owed u

section
variable (hs : SideSound s)
include hs

/-- What the sender's side of an operation does. -/
theorem reading_handle (hop : Operates n op) (h : (s.handle (op s.socket)).Reading) :
    s.Reading ∧ (∀ p ∈ (op s.socket).emitted, p.Plain) ∧
      ∀ u, (s.handle (op s.socket)).inFlight u = s.inFlight u + total u.data (op s.socket).emitted := by
  cases hsock : s.socket with
  | none =>
    rw [hsock, hop.none, handle_idle hsock] at h
    rw [hop.none, handle_idle hsock]
    exact ⟨h, by simp, fun u => (Int.add_zero _).symm⟩
  | some x =>
    have hhan := hop.handles x (hs.socket x hsock).1
    rw [hsock] at h
    rcases h with hpend | ⟨x', hx', hrd⟩
    · exact nomatch (hs.pending hpend).1.symm.trans hsock
    · obtain ⟨-, -, hfly, hkept⟩ := hhan.kept x' hx'
      obtain ⟨hx, hpl⟩ := hkept hrd
      have hx'' : (op (some x)).socket = some x' := hx'
      refine ⟨.inr ⟨x, hsock, hx⟩, hpl, fun u => ?_⟩
      simp only [Side.inFlight, Side.handle, hx'', hsock, elim_some, hfly]

/-- The sender's side of an operation, while the other side's announcements stay the same or are read. -/
theorem backed_send (h : Backed s t) (hop : Operates n op)
    (hends : (s.handle (op s.socket)).Reading → (∀ p ∈ sent, ¬p.Ends) → ∀ p ∈ t.sent, ¬p.Ends) :
    Backed (s.handle (op s.socket)) { t with sent := sent } := by
  have hsent : (s.handle (op s.socket)).sent = s.sent ++ (op s.socket).emitted := rfl
  refine ⟨fun hrd p hp => ?_, fun hrd hgd y hy => ?_, fun hrd hgd hp u => ?_⟩
  · obtain ⟨hr, hpl, -⟩ := reading_handle hs hop hrd
    exact forall_mem_append.mpr ⟨h.plain hr, hpl⟩ p hp
  · exact h.isWriteClosed (reading_handle hs hop hrd).1 (hends hrd hgd) y hy
  · obtain ⟨hr, -, hfly⟩ := reading_handle hs hop hrd
    have hle : s.inFlight u ≤ total u.data s.sent + { t with sent := sent }.owed u :=
      h.le hr (hends hrd hgd) hp u
    rw [hfly, hsent, total_append]
    omega

theorem inFlight_le (u : Count) : s.inFlight u ≤ i32Max := by
  have hlim := u.limit_bounds
  unfold Side.inFlight
  cases hsock : s.socket with
  | none => exact (by decide : (0 : Int) ≤ i32Max)
  | some x =>
    have hbnd := (hs.socket x hsock).1.bounded.counts u
    simp only [elim_some]
    omega

/-- The receiver's side of an operation that takes data off the lane. -/
theorem backed_receive (ht : SideSound t) (h : Backed s t) (hop : Operates n op) (hsub : ∀ p ∈ sent, p ∈ s.sent)
    (hsent : ∀ u : Count, total u.data sent + n u = total u.data s.sent)
    (hpop : t.pending.isSome = true → ∀ u, n u = 0)
    (hdel : s.Reading → ∀ y, t.socket = some y → Delivers y n (op (some y))) :
    Backed { s with sent := sent } (t.handle (op t.socket)) := by
  cases ht' : t.socket with
  | none =>
    rw [hop.none, handle_idle ht']
    refine ⟨fun hr p hp => h.plain hr p (hsub p hp), fun _ _ y hy => (nomatch ht'.symm.trans hy),
      fun hr hgd hp u => ?_⟩
    have hle : { s with sent := sent }.inFlight u ≤ total u.data s.sent + t.owed u := h.le hr hgd hp u
    have hzero : n u = 0 := by
      rcases hp with hp | hp
      · exact hpop hp u
      · rw [ht'] at hp
        exact nomatch hp
    have := hsent u
    dsimp only
    omega
  | some y =>
    have hpres : t.Present := .inr (by rw [ht']; rfl)
    have hsentEq : (t.handle (op (some y))).sent = t.sent ++ (op (some y)).emitted := rfl
    -- nothing the receiver announced before, and nothing it announces now, ends the socket
    have hguards : (∀ p ∈ (t.handle (op (some y))).sent, ¬p.Ends) →
        (∀ p ∈ t.sent, ¬p.Ends) ∧ ∀ p ∈ (op (some y)).emitted, ¬p.Ends := by
      intro hgd
      exact ⟨fun p hp => hgd p (hsentEq ▸ mem_append_left _ hp), fun p hp => hgd p (hsentEq ▸ mem_append_right _ hp)⟩
    have hsome : (t.handle (op (some y))).Present → (op (some y)).socket.isSome = true := by
      rintro (hp | hp)
      · exact nomatch (ht.pending hp).1.symm.trans ht'
      · exact hp
    refine ⟨fun hr p hp => h.plain hr p (hsub p hp), fun hr hgd y' hy' => ?_, fun hr hgd hp u => ?_⟩
    · obtain ⟨hg, hg'⟩ := hguards hgd
      by_contra hcl
      rw [Bool.not_eq_false] at hcl
      obtain ⟨p, hp, hends⟩ := (hdel hr y ht').isWriteClosed y' hy' (h.isWriteClosed hr hg y ht') hcl
      exact hg' p hp hends
    · obtain ⟨hg, -⟩ := hguards hgd
      have hle := (hdel hr y ht').le_owed (hsome hp) (h.isWriteClosed hr hg y ht') u
      have hbacked : { s with sent := sent }.inFlight u ≤ total u.data s.sent + t.owed u := h.le hr hg hpres u
      have hcap : { s with sent := sent }.inFlight u ≤ i32Max := inFlight_le hs u
      have hlane := lane_nonneg u sent
      have hheld := buffers_nonneg u t.held
      have hcred := credits_nonneg ht.credits u
      have := hsent u
      rw [Side.owed, ht', elim_some] at hbacked
      simp only [Side.owed, Side.handle, total_append]
      unfold Handled.owed at hle
      omega

/-- Credit frees what it returns, and no more than is in flight. -/
theorem inFlight_credit (hd : d.Credit) :
    ((s.credit d).Reading → s.Reading) ∧ ∀ u, (s.credit d).inFlight u = max (s.inFlight u - u.credit d) 0 := by
  refine ⟨?_, fun u => ?_⟩
  · rintro (hpend | ⟨x', hx', hrd⟩)
    · exact .inl hpend
    · obtain ⟨x, hx, rfl⟩ := map_eq_some_iff.mp hx'
      exact .inr ⟨x, hx, hrd⟩
  · have hpos := hd.pos u
    simp only [Side.inFlight, Side.credit]
    cases hsock : s.socket with
    | none =>
      simp only [map_none, elim_none]
      omega
    | some x =>
      have hx := (hs.socket x hsock).1
      have hcnt := hx.bounded.counts u
      simp only [map_some, elim_some, (delivered_spec hx hd).1 u]
      omega

theorem backed_credit (ht : SideSound t) (h : Backed s t) (hcred : t.credits = d :: rest) :
    Backed (s.credit d) { t with credits := rest } := by
  have hrest : ∀ p ∈ rest, p.Credit := fun p hp => ht.credits p (hcred ▸ mem_cons_of_mem _ hp)
  obtain ⟨hrds, hfly⟩ := inFlight_credit hs (ht.credits d (hcred ▸ mem_cons_self))
  have hsent : (s.credit d).sent = s.sent := rfl
  refine ⟨fun hr => h.plain (hrds hr), fun hr => h.isWriteClosed (hrds hr), fun hr hgd hp u => ?_⟩
  have hbacked := h.le (hrds hr) hgd hp u
  have howed := socketOwed_nonneg ht u
  have hlane := lane_nonneg u s.sent
  have hheld := buffers_nonneg u t.held
  have hnonneg := credits_nonneg hrest u
  rw [Side.owed, hcred, total_cons] at hbacked
  rw [hfly, hsent]
  simp only [Side.owed]
  omega

end

theorem backed_credited (h : Backed s t) (credits : List PortForwardData) (d : PortForwardData) :
    Backed { s with credits := credits } (t.credit d) := by
  have hpres : (t.credit d).Present → t.Present := by
    rw [Side.Present, Side.Present, Side.credit, isSome_map]
    exact id
  have howed : ∀ u, (t.credit d).owed u = t.owed u := by
    intro u
    rw [Side.owed, Side.owed, socketOwed_credit]
    rfl
  refine ⟨h.plain, fun hr hgd y' hy' => ?_, fun hr hgd hp u => ?_⟩
  · obtain ⟨y, hy, rfl⟩ := map_eq_some_iff.mp hy'
    exact h.isWriteClosed hr hgd y hy
  · rw [howed]
    exact h.le hr hgd (hpres hp) u

/-- What is held back does not concern the direction a worker sends in. -/
theorem backed_retried_send (hs : SideSound s) (h : Backed s t) : Backed s.retried t := by
  have hsame : (s.retried.Reading → s.Reading) ∧ ∀ u, s.retried.inFlight u = s.inFlight u := by
    unfold Side.retried Side.inFlight Side.Reading
    cases hsock : s.socket with
    | none =>
      rw [flushHeldOf_none]
      exact ⟨id, fun _ => rfl⟩
    | some x =>
      obtain ⟨x', hx', hret⟩ := flushHeldOf_spec (hs.socket x hsock).1 hs.held
      rw [hx']
      refine ⟨?_, fun u => (hret.sender.counts u).2⟩
      rintro (hpend | ⟨y, hy, hrd⟩)
      · exact .inl hpend
      · cases hy
        refine .inr ⟨x, rfl, ?_⟩
        rw [← hrd, SocketIo.reading, SocketIo.reading, hret.sender.readOpen, hret.sender.closeWhenDrained]
  obtain ⟨hrds, hfly⟩ := hsame
  refine ⟨fun hr => h.plain (hrds hr), fun hr => h.isWriteClosed (hrds hr), fun hr hgd hp u => ?_⟩
  rw [hfly]
  exact h.le (hrds hr) hgd hp u

/-- What was held back and fits is queued. -/
theorem backed_retried_receive (ht : SideSound t) (h : Backed s t) : Backed s t.retried := by
  cases ht' : t.socket with
  | none =>
    have hret : t.retried = { t with socket := none, held := [] } := by
      rw [Side.retried, ht', flushHeldOf_none]
    have hheld : t.retried.Present → t.retried = t := by
      rw [hret]
      rintro (hp | hp)
      · rw [← ht', ← (ht.pending hp).2.2]
      · exact nomatch hp
    refine ⟨h.plain, fun _ _ y hy => ?_, fun hr hgd hp => ?_⟩
    · rw [hret] at hy
      cases hy
    · have hsame := hheld hp
      rw [hsame] at hp hgd ⊢
      exact h.le hr hgd hp
  | some y =>
    obtain ⟨y', hy', hret⟩ := flushHeldOf_spec (ht.socket y ht').1 ht.held
    have hpres : t.Present := .inr (by rw [ht']; rfl)
    have hsock : t.retried.socket = some y' := by rw [Side.retried, ht', hy']
    have hheld : t.retried.held = (flushHeldOf (some y) t.held).2 := by rw [Side.retried, ht']
    refine ⟨h.plain, fun hr hgd z hz => ?_, fun hr hgd hp u => ?_⟩
    · obtain rfl : y' = z := Option.some.inj (hsock.symm.trans hz)
      rw [hret.isWriteClosed]
      exact h.isWriteClosed hr hgd y ht'
    · have hle := hret.le_owed (h.isWriteClosed hr hgd y ht') u
      have hbacked := h.le hr hgd hpres u
      have hcred : t.retried.credits = t.credits := rfl
      rw [Side.owed, ht', elim_some] at hbacked
      rw [Side.owed, hsock, elim_some, hheld, hcred]
      omega

/-- Both sides are sound, and both directions are backed. -/
structure PairBacked (p : Pair) : Prop where
  sound : ∀ r, SideSound (p.side r)
  backed : ∀ r, Backed (p.side r) (p.side r.peer)

/-- The response arrives. -/
theorem PairBacked.answer (h : PairBacked p) (hpend : (p.side .source).pending = some pending) :
    Backed ((p.side .source).answered p.socketId pending) (p.side .destination) ∧
      Backed (p.side .destination) ((p.side .source).answered p.socketId pending) := by
  have hsome : (p.side .source).pending.isSome = true := isSome_iff_exists.mpr ⟨pending, hpend⟩
  obtain ⟨hnone, hnil, -⟩ := (h.sound .source).pending hsome
  obtain ⟨a, ha⟩ : ∃ a, (p.side .source).answered p.socketId pending = a := ⟨_, rfl⟩
  obtain ⟨hcred, hheld⟩ := credits_answered (p.side .source) p.socketId pending
  rw [ha] at hcred hheld ⊢
  constructor
  · have hb := h.backed .source
    refine ⟨fun _ d hd => ?_, fun _ => hb.isWriteClosed (.inl hsome), fun _ hgd hp u => ?_⟩
    · rw [← ha] at hd
      rcases mem_append.mp hd with hd | hd
      · exact nomatch hnil ▸ hd
      · exact (emitted_answer hd).1
    · have hle := hb.le (.inl hsome) hgd hp u
      have hfly : a.inFlight u = 0 := by
        rw [← ha]
        cases u <;> rfl
      rw [Side.inFlight, hnone, hnil, total_nil] at hle
      rw [hfly]
      exact le_trans hle (Int.add_le_add_right (lane_nonneg u a.sent) _)
  · have hb : Backed (p.side .destination) (p.side .source) := h.backed .destination
    have howed : ∀ u, a.owed u = (p.side .source).owed u := by
      intro u
      rw [Side.owed, Side.owed, hcred, hheld, hnone, ← ha]
      cases u <;> rfl
    have hguards : ∀ d ∈ (p.side .source).sent, ¬d.Ends := fun d hd => (nomatch hnil ▸ hd)
    refine ⟨hb.plain, fun _ _ y hy => ?_, fun hr _ _ u => ?_⟩
    · rw [← ha] at hy
      cases hy
      rfl
    · rw [howed]
      exact hb.le hr hguards (.inl hsome) u

theorem pairBacked_step (h : PairBacked p) (hstep : p.Step p') : PairBacked p' := by
  have hback := Pair.back h.backed
  have hmove := pairMove_of_step h.sound hstep
  refine ⟨sideSound_move h.sound hmove, ?_⟩
  cases hmove with
  | answer hpend => exact Pair.forall_set (h.answer hpend).1 (h.answer hpend).2
  | operate role hop hn hrest htot hpend hdel hends =>
    exact Pair.forall_set (backed_send (h.sound role) (h.backed role) hop hends)
      (backed_receive (h.sound role.peer) (h.sound role) (hback role) hop hrest.subset htot hpend
        fun hrd y hy => hdel ((hback role).plain hrd) y ((h.sound role).socket y hy).1)
  | retry role =>
    exact Pair.forall_set (backed_retried_send (h.sound role) (h.backed role))
      (backed_retried_receive (h.sound role) (hback role))
  | credit role hd hcred =>
    exact Pair.forall_set (backed_credit (h.sound role) (h.sound role.peer) (h.backed role) hcred)
      (backed_credited (hback role) _ _)

theorem pairBacked_start (socketId : Int) (pending : Pending) (bindReplies : Option AgentSessionBindReplies) :
    PairBacked (Pair.start socketId pending bindReplies) := by
  refine ⟨sideSound_start socketId pending bindReplies, fun r => ?_⟩
  refine ⟨fun _ _ hp => absurd hp (by cases r <;> exact not_mem_nil), fun _ _ y hy => ?_, fun _ _ _ u => ?_⟩
  · cases r with
    | source =>
      cases hy
      rfl
    | destination => cases hy
  · cases r <;> cases u <;> exact Int.le_refl 0

/-- Credit that is not due is less than a batch of it. -/
theorem credit_lt_of_not_due (hy : Sound y) (hlim : ∀ u : Count, y.window u = u.limit) (hdue : y.creditDue = false) :
    y.creditBytes < EternalTerminal.windowBytes ∧ y.creditPackets < EternalTerminal.windowPackets := by
  have hwb : y.windowBytes = EternalTerminal.windowBytes := hlim .bytes
  have hwp : y.windowPackets = EternalTerminal.windowPackets := hlim .packets
  have hbs : creditBatch y.windowBytes creditReturnThreshold ≤ EternalTerminal.windowBytes := by
    rw [hwb]
    decide
  have hpkts : creditBatch y.windowPackets packetCreditReturnThreshold ≤ EternalTerminal.windowPackets := by
    rw [hwp]
    decide
  have hpos : 0 < EternalTerminal.windowBytes ∧ 0 < EternalTerminal.windowPackets := by decide
  have hboth := hy.credit.both
  unfold creditDue at hdue
  by_cases hcred : 0 < y.creditBytes
  · have hcred' := hboth.mp hcred
    simp only [hcred, hcred', decide_true, Bool.true_and, Bool.or_eq_false_iff, decide_eq_false_iff_not] at hdue
    omega
  · omega

/-- **Credit that is held back never leaves a sender waiting.**  When everything sent has been processed, the
receiver's queue is empty and no credit is due, a sender whose read side is open reads. -/
theorem quiescent_reads {socketId : Int} {pending : Pending} {bindReplies : Option AgentSessionBindReplies} {p : Pair}
    (hrun : ReflTransGen Pair.Step (Pair.start socketId pending bindReplies) p) (r : Role) {x y : SocketIo}
    (hx : (p.side r).socket = some x) (hy : (p.side r.peer).socket = some y)
    (hlanes : ∀ q, (p.side q).sent = [] ∧ (p.side q).credits = []) (hheld : (p.side r.peer).held = [])
    (hout : y.out = []) (hdue : y.creditDue = false) (hopen : x.readOpen = true) : x.readInterest = true := by
  have hpair := reach_invariant hrun (pairBacked_start socketId pending bindReplies) fun _ _ => pairBacked_step
  obtain ⟨hxsound, hlimit⟩ := (hpair.sound r).socket x hx
  have hclose : x.closeWhenDrained = false := by
    by_contra hclose
    exact nomatch hopen.symm.trans (hxsound.closing (Bool.of_not_eq_false hclose))
  obtain ⟨hysound, hlimit'⟩ := (hpair.sound r.peer).socket y hy
  have hwb : x.windowBytes = windowBytes := hlimit .bytes
  have hwp : x.windowPackets = windowPackets := hlimit .packets
  have hreading : (p.side r).Reading := .inr ⟨x, hx, by rw [SocketIo.reading, hopen, hclose]; rfl⟩
  have hguard : ∀ d ∈ (p.side r.peer).sent, ¬d.Ends := by
    intro d hd
    rw [(hlanes r.peer).1] at hd
    cases hd
  have hpresent : (p.side r.peer).Present := .inr (by rw [hy]; rfl)
  have hbytes := (hpair.backed r).le hreading hguard hpresent .bytes
  have hpackets := (hpair.backed r).le hreading hguard hpresent .packets
  obtain ⟨hlt, hlt'⟩ := credit_lt_of_not_due hysound hlimit' hdue
  simp only [Side.inFlight, Side.owed, SocketIo.inFlight, SocketIo.owed, hx, hy, hout, hheld, (hlanes r).1,
    (hlanes r.peer).2, elim_some, total_nil, length_nil] at hbytes hpackets
  rw [readInterest, hopen, hclose, hxsound.bounded.windowed, hwb, hwp]
  simp only [Bool.not_true, Bool.or_self, Bool.false_eq_true, if_false, Bool.and_eq_true, decide_eq_true_eq]
  omega

/-- One byte goes across and is written; its credit is held back. -/
def withheldRun : List PairEvent :=
  [.respond, readByte, .receive .destination none, .service .destination ⟨false, true, false⟩ [.wrote 1] [],
    .flushDueCredits .destination]

theorem quiescent_reads_withheld : ∃ p x, ReflTransGen Pair.Step (Pair.start 1 ⟨[], false⟩ none) p ∧
    (p.side .source).socket = some x ∧ x.inFlightBytes = 1 ∧ x.readInterest = true := by
  have hrun : ((execEvents Pair.apply (Pair.start 1 ⟨[], false⟩ none) withheldRun).any fun p =>
      ((p.side .source).socket.any fun x => x.readOpen && decide (x.inFlightBytes = 1)) &&
      ((p.side .destination).socket.any fun y => y.out.isEmpty && !y.creditDue) &&
      ((p.side .destination).held.isEmpty && decide ((p.side .source).sent = [] ∧ (p.side .source).credits = []) &&
        decide ((p.side .destination).sent = [] ∧ (p.side .destination).credits = []))) = true := by
    decide +kernel
  obtain ⟨p, hp, hquiet⟩ := (Option.any_eq_true _ _).mp hrun
  simp only [Bool.and_eq_true, Option.any_eq_true, Bool.not_eq_true', decide_eq_true_eq, List.isEmpty_iff] at hquiet
  obtain ⟨⟨⟨x, hx, hopen, hinFlight⟩, y, hy, hout, hdue⟩, ⟨hheld, hsource⟩, hdestination⟩ := hquiet
  have hreach : ReflTransGen Pair.Step (Pair.start 1 ⟨[], false⟩ none) p :=
    reach_of_exec (fun _ e _ he => ⟨e, he⟩) _ hp
  have hlanes : ∀ q, (p.side q).sent = [] ∧ (p.side q).credits = [] := by
    intro q
    cases q with
    | source => exact hsource
    | destination => exact hdestination
  exact ⟨p, x, hreach, hx, hinFlight, quiescent_reads hreach .source hx hy hlanes hheld hout hdue hopen⟩

end EternalTerminal
