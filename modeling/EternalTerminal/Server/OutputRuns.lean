import EternalTerminal.Server.SessionFlow

/-!
# Server — every run of a session's output

Enqueueing threads, the one pump and recoveries that pause it, in any order, as long as no write is fatal.  A
packet that was accepted is queued, in flight, or was handed to the replay writer, once (`FlowInv`, kept by every
step).

Main results: `session_output_once`, `evicted_output_lost`, `session_terminal_bytes`, `session_output_no_panic`.
-/

namespace EternalTerminal
open List Option Relation OutputQueue

/-! ### The invariant -/

namespace FlowRun

/-- The packet whose frame is partly on the wire: the pump has it, or it was handed back. -/
def live (s : FlowRun) : Option Packet :=
  match s.held with
  | some (packet, true) => some packet
  | some (_, false) => none
  | none => s.state.pendingLiveInFlight

/-- The packet that is off the queue and still counted by it. -/
def outstanding (s : FlowRun) : Option Packet := (s.held.map Prod.fst).or s.state.pendingLiveInFlight

end FlowRun

/-- Everything accepted before an exit status entered the replay before it. -/
def ExitsLast (mode : FlowControlMode) (promoted : Bool) (accepted replayed : List Packet) : Prop :=
  ∀ before exit after, accepted = before ++ exit :: after → exit.header = terminalExitStatus →
    ∃ entered later, replayed = entered ++ later ∧ ofLane false entered = ofLane false before ∧
      Fated mode promoted (ofLane true before) (ofLane true entered) []

namespace ExitsLast
variable {mode : FlowControlMode} {promoted : Bool} {accepted replayed : List Packet}

theorem mono {promoted' : Bool} (h : ExitsLast mode promoted accepted replayed)
    (hp : promoted = true → promoted' = true) (more : List Packet) :
    ExitsLast mode promoted' accepted (replayed ++ more) := by
  intro before exit after hspl hexit
  obtain ⟨entered, later, rfl, hctl, hterm⟩ := h before exit after hspl hexit
  exact ⟨entered, later ++ more, append_assoc _ _ _, hctl, hterm.mono hp⟩

/-- An exit status is accepted when everything before it has entered the replay. -/
theorem accept (h : ExitsLast mode promoted accepted replayed) {packet : Packet}
    (hexit : packet.header = terminalExitStatus →
      ofLane false replayed = ofLane false accepted ∧
        Fated mode promoted (ofLane true accepted) (ofLane true replayed) []) :
    ExitsLast mode promoted (accepted ++ [packet]) replayed := by
  intro before exit after hspl hhd
  rcases eq_nil_or_concat after with rfl | ⟨init, last, rfl⟩
  · obtain ⟨rfl, hlast⟩ := append_inj' hspl rfl
    cases hlast
    obtain ⟨hctl, hterm⟩ := hexit hhd
    exact ⟨replayed, [], (append_nil _).symm, hctl, hterm⟩
  · rw [concat_eq_append, ← cons_append, ← append_assoc] at hspl
    obtain ⟨hinit, -⟩ := append_inj' hspl rfl
    exact h before exit init hinit hhd

end ExitsLast

/-- Where the packets of the output are. -/
structure FlowInv (mode : FlowControlMode) (s : FlowRun) : Prop where
  flag : s.state.inFlight = s.held.isSome
  /-- A live packet is handed back only while the pump has none. -/
  slot : s.held.isSome = true → s.state.pendingLiveInFlight = none
  live : ∀ packet, s.live = some packet → s.connection.replayed.getLast? = some packet
  lanes : Lanes mode s.promoted s.accepted (s.connection.replayed ++ s.unstarted) s.state.queue
  accounts : QueueInv ⟨s.state.queue, s.outstanding⟩
  exits : ExitsLast mode s.promoted s.accepted s.connection.replayed

variable {s : FlowRun} {mode : FlowControlMode} {S : Sodium} {q queue : OutputQueue} {limit : Nat} {packet : Packet}

theorem Lanes.setLimit {promoted : Bool} {accepted out : List Packet}
    (h : Lanes mode promoted accepted out q) (limit : Nat) : Lanes mode promoted accepted out (q.setLimit limit) :=
  { h with }

theorem QueueInv.setLimit {outstanding : Option Packet} (h : QueueInv ⟨q, outstanding⟩)
    (limit : Nat) : QueueInv ⟨q.setLimit limit, outstanding⟩ :=
  { h with }

namespace FlowInv
variable {S : Sodium} {mode : FlowControlMode} {s s' : FlowRun}
variable {packet : Packet} {started : Bool}

theorem start (mode : FlowControlMode) (limit : Nat) (writer : BackedWriter) :
    FlowInv mode (.start (.withLimit mode limit) writer) where
  flag := rfl
  slot := nofun
  live := nofun
  lanes := .new mode false limit
  accounts := .new mode limit
  exits := fun before exit after hspl => by simp [FlowRun.start] at hspl

section
variable (h : FlowInv mode s)
include h

/-- Steps that move nothing. -/
theorem of_same (hst : SameOutput s.state s'.state) (hheld : s'.held = s.held)
    (hrep : s'.connection.replayed = s.connection.replayed) (hacc : s'.accepted = s.accepted)
    (hprom : s'.promoted = s.promoted) : FlowInv mode s' := by
  obtain ⟨⟨limit, hq⟩, hfly, hpend⟩ := hst
  have hunstarted : s'.unstarted = s.unstarted := by rw [FlowRun.unstarted, FlowRun.unstarted, hheld]
  have hlive : s'.live = s.live := by rw [FlowRun.live, FlowRun.live, hheld, hpend]
  have houtstanding : s'.outstanding = s.outstanding := by
    rw [FlowRun.outstanding, FlowRun.outstanding, hheld, hpend]
  constructor
  · rw [hfly, hheld, h.flag]
  · rw [hheld, hpend]
    exact h.slot
  · rw [hlive, hrep]
    exact h.live
  · rw [hq, hprom, hacc, hrep, hunstarted]
    exact h.lanes.setLimit limit
  · rw [hq, houtstanding]
    exact h.accounts.setLimit limit
  · rw [hprom, hacc, hrep]
    exact h.exits

/-- With nothing queued and nothing in flight, everything accepted has entered the replay. -/
theorem drained (hfly : s.state.inFlight = false) (hemp : s.state.queue.isEmpty = true) :
    ofLane false s.connection.replayed = ofLane false s.accepted ∧
      Fated mode s.promoted (ofLane true s.accepted) (ofLane true s.connection.replayed) [] := by
  have hheld : s.held = none := by
    rw [h.flag] at hfly
    exact not_isSome_iff_eq_none.mp (by simp [hfly])
  obtain ⟨hterm, hctl⟩ : s.state.queue.terminal = [] ∧ s.state.queue.control = [] := by
    simpa [OutputQueue.isEmpty] using hemp
  have hln := h.lanes
  rw [FlowRun.unstarted, hheld, append_nil] at hln
  have hc := hln.control
  have ht := hln.terminal
  rw [hctl, append_nil] at hc
  rw [hterm] at ht
  exact ⟨hc, ht⟩

theorem enqueue (hap : s.apply S (.enqueue packet) = some s') : FlowInv mode s' := by
  obtain ⟨⟨r, state⟩, henqueue, rfl⟩ := map_eq_some_iff.mp hap
  rcases WriterState.enqueueOwned_cases henqueue with
    ⟨href, hsame⟩ | ⟨result, queue, hpush, hres, hsame, hexit⟩
  · exact h.of_same hsame rfl rfl (by simp [href]) rfl
  · obtain ⟨result', queue', hpush', hacc⟩ := h.accounts.push packet
    obtain ⟨rfl, rfl⟩ := Prod.mk.inj (some.inj (hpush.symm.trans hpush'))
    have hln := h.lanes.push hpush
    have hexits : ExitsLast mode s.promoted (s.accepted ++ if r = .ok () then [packet] else [])
        s.connection.replayed := by
      split
      · exact h.exits.accept fun hhd => h.drained (hexit hhd).1 (hexit hhd).2
      · rw [append_nil]
        exact h.exits
    have hpushed : FlowInv mode
        { s with
          state := { s.state with queue := queue }
          accepted := s.accepted ++ if r = .ok () then [packet] else [] } := by
      refine ⟨h.flag, h.slot, h.live, ?_, hacc, hexits⟩
      simp only [hres]
      exact hln
    exact hpushed.of_same hsame rfl rfl rfl rfl

theorem take {terminal : Bool} (hap : s.apply S (.take terminal) = some s') : FlowInv mode s' := by
  rw [FlowRun.apply] at hap
  split at hap
  · cases hap
  rename_i hnot
  have hheld : s.held = none := not_isSome_iff_eq_none.mp hnot
  have hln := h.lanes
  have hacc := h.accounts
  rw [FlowRun.unstarted, hheld, append_nil] at hln
  rw [FlowRun.outstanding, hheld, map_none, none_or] at hacc
  obtain ⟨⟨item, state⟩, htake, rfl⟩ := map_eq_some_iff.mp hap
  unfold FlowRun.taken
  rcases WriterState.takeItem_cases htake with
    ⟨rfl, rfl⟩ | ⟨packet, hpend, rfl, rfl⟩ | ⟨hstop, hpend, packet, queue, htak, rfl, rfl⟩
  · -- nothing to write
    refine ⟨by rw [h.flag, hheld], nofun, ?_, ?_, ?_, ?_⟩
    · have hlive := h.live
      rwa [FlowRun.live, hheld] at hlive
    · exact (by simpa [FlowRun.unstarted] using hln.mono (by simp +contextual))
    · simpa [FlowRun.outstanding] using hacc
    · simpa using h.exits.mono (by simp +contextual) []
  · -- the live packet, which the replay writer has
    have hlast : s.connection.replayed.getLast? = some packet := h.live packet (by rw [FlowRun.live, hheld, hpend])
    rw [hpend] at hacc
    refine ⟨rfl, fun _ => rfl, ?_, ?_, hacc, ?_⟩
    · intro p hp
      cases hp
      exact hlast
    · simpa [FlowRun.unstarted, hpend] using hln
    · simpa [hpend] using h.exits
  · -- the next packet of the queue
    rw [hpend] at hacc
    have htak' : Lanes mode
          (s.promoted || (terminal && decide (s.state.stop ≠ .hard) && s.state.pendingLiveInFlight.isNone &&
            s.state.queue.promotes)) s.accepted (s.connection.replayed ++ packet.toList) queue ∧
        QueueInv ⟨queue, packet⟩ := by
      cases terminal with
      | true =>
        obtain ⟨packet', queue', htake', hinv⟩ := hacc.take rfl
        obtain ⟨rfl, rfl⟩ := Prod.mk.inj (some.inj (htak.symm.trans htake'))
        refine ⟨?_, hinv⟩
        simpa [hstop, hpend] using hln.take htak
      | false =>
        have hctl := some.inj htak
        have hinv := hacc.takeControl rfl
        have hln' := hln.takeControl
        rw [hctl] at hinv hln'
        exact ⟨by simpa using hln', hinv⟩
    obtain ⟨hln', hinv⟩ := htak'
    cases packet with
    | none =>
      refine ⟨by simp [h.flag, hheld], nofun, ?_, hln', ?_, ?_⟩
      · intro p hp
        rw [FlowRun.live] at hp
        simp [hpend] at hp
      · simpa [FlowRun.outstanding, hpend] using hinv
      · simpa using h.exits.mono (by simp +contextual) []
    | some packet =>
      refine ⟨by simp, fun _ => hpend, nofun, hln', hinv, ?_⟩
      simpa using h.exits.mono (by simp +contextual) []

/-- The pump puts an unstarted packet back. -/
theorem putBack (hheld : s.held = some (packet, false))
    (hst : SameOutput { s.state with inFlight := false, queue := s.state.queue.restoreFront packet } s'.state)
    (hnone : s'.held = none) (hrep : s'.connection.replayed = s.connection.replayed)
    (haccepted : s'.accepted = s.accepted) (hprom : s'.promoted = s.promoted) : FlowInv mode s' := by
  have hpend := h.slot (by rw [hheld]; rfl)
  have hln := h.lanes
  have hacc := h.accounts
  rw [FlowRun.unstarted, hheld] at hln
  rw [FlowRun.outstanding, hheld] at hacc
  have hback : FlowInv mode
      { s with
        held := none
        state := { s.state with inFlight := false, queue := s.state.queue.restoreFront packet } } := by
    refine ⟨rfl, nofun, ?_, ?_, ?_, h.exits⟩
    · intro p hp
      exact absurd (hpend.symm.trans hp) nofun
    · simpa [FlowRun.unstarted] using hln.restoreFront
    · simpa [FlowRun.outstanding, hpend] using QueueInv.restoreFront hacc
  exact hback.of_same hst hnone hrep haccepted hprom

section
variable (hheld : s.held = some (packet, started))
include hheld

/-- The replay writer has the packet, whether it took it now or before. -/
theorem lanes_owned :
    Lanes mode s.promoted s.accepted (s.connection.replayed ++ if started then [] else [packet]) s.state.queue := by
  have hln := h.lanes
  rw [FlowRun.unstarted, hheld] at hln
  cases started with
  | true => exact hln
  | false => exact hln

/-- A write that the replay writer owns is completed. -/
theorem settle {queue : OutputQueue} (hcomp : s.state.queue.complete packet = some queue)
    (hst : SameOutput { s.state with inFlight := false, queue := queue } s'.state) (hnone : s'.held = none)
    (hrep : s'.connection.replayed = s.connection.replayed ++ if started then [] else [packet])
    (haccepted : s'.accepted = s.accepted) (hprom : s'.promoted = s.promoted) : FlowInv mode s' := by
  have hpend := h.slot (by rw [hheld]; rfl)
  have hacc := h.accounts
  rw [FlowRun.outstanding, hheld] at hacc
  obtain ⟨queue', hcomp', hinv⟩ := QueueInv.complete hacc
  obtain rfl := some.inj (hcomp.symm.trans hcomp')
  have hdone : FlowInv mode
      { s with
        held := none
        connection := s'.connection
        state := { s.state with inFlight := false, queue := queue } } := by
    refine ⟨rfl, nofun, ?_, ?_, ?_, ?_⟩
    · intro p hp
      exact absurd (hpend.symm.trans hp) nofun
    · simpa [FlowRun.unstarted, hrep] using (h.lanes_owned hheld).complete hcomp
    · simpa [FlowRun.outstanding, hpend] using hinv
    · rw [hrep]
      exact h.exits.mono id _
  exact hdone.of_same hst hnone rfl haccepted hprom

/-- The frame is partly on the wire. -/
theorem advance {connection : LiveConnection}
    (hrep : connection.replayed = s.connection.replayed ++ if started then [] else [packet]) :
    FlowInv mode { s with connection := connection, held := some (packet, true) } := by
  have hacc := h.accounts
  have hlive := h.live
  rw [FlowRun.outstanding, hheld] at hacc
  refine ⟨by rw [h.flag, hheld]; rfl, fun _ => h.slot (by rw [hheld]; rfl), ?_, ?_, hacc, ?_⟩
  · intro p hp
    cases hp
    rw [hrep]
    cases started with
    | true =>
      rw [if_pos rfl, append_nil]
      exact hlive packet (by rw [FlowRun.live, hheld])
    | false => simp
  · simpa [FlowRun.unstarted, hrep] using h.lanes_owned hheld
  · rw [hrep]
    exact h.exits.mono id _

end

theorem write {answer : WriteAnswer} (hunf : s.Unfailing S (.write answer) = true)
    (hap : s.apply S (.write answer) = some s') : FlowInv mode s' := by
  rw [FlowRun.apply] at hap
  split at hap
  · cases hap
  rename_i packet started hheld
  obtain ⟨⟨outcome', _⟩, hwr, rfl⟩ := map_eq_some_iff.mp hap
  rcases hcall : s.connection.writeNonblocking S (decide (s.state.stop = .hard)) packet started answer with
    ⟨outcome, connection⟩
  have hfatal : outcome.isFatal = false := by
    simpa [FlowRun.Unfailing, hheld, hcall] using hunf
  rw [FlowRun.write, hcall] at hwr
  dsimp only at hwr
  rcases LiveConnection.writeNonblocking_cases hcall hfatal with
    ⟨rfl, hno, hrep⟩ | ⟨hown, hrep⟩
  · rcases hno with rfl | ⟨connected, rfl⟩
    · cases hwr
      exact h.putBack hheld (.of_eq rfl rfl rfl) rfl hrep rfl rfl
    · obtain ⟨⟨signal, state⟩, hcomp, heq⟩ := map_eq_some_iff.mp hwr
      cases heq
      rcases WriterState.completeWithSignal_cases (by simp) hcomp with ⟨-, hsame⟩ | ⟨hne, -⟩
      · exact h.putBack hheld hsame rfl hrep rfl rfl
      · exact absurd rfl hne
  · rcases hown with rfl | ⟨result, connected, rfl, hres, hnotfatal⟩
    · cases hwr
      exact h.advance hheld hrep
    · obtain ⟨⟨signal, state⟩, hcomp, heq⟩ := map_eq_some_iff.mp hwr
      cases heq
      rcases WriterState.completeWithSignal_cases hnotfatal hcomp with ⟨heq, -⟩ | ⟨-, queue, hq, hsame⟩
      · exact absurd heq hres
      · exact h.settle hheld hq hsame rfl hrep rfl rfl

/-- The pump is dropped; a live packet goes back to the state. -/
theorem dropPump (hap : s.apply S .dropPump = some s') : FlowInv mode s' := by
  rw [FlowRun.apply] at hap
  split at hap
  · cases hap
    exact h
  next packet hheld =>
    cases hap
    have hlast := h.live packet (by rw [FlowRun.live, hheld])
    have hln := h.lanes
    have hacc := h.accounts
    rw [FlowRun.unstarted, hheld] at hln
    rw [FlowRun.outstanding, hheld] at hacc
    refine ⟨rfl, nofun, ?_, hln, hacc, h.exits⟩
    intro p hp
    cases hp
    exact hlast
  · cases hap

/-- **Every step keeps the packets where they belong.** -/
theorem step (hstep : FlowStep S s s') : FlowInv mode s' := by
  obtain ⟨e, _, hunf, hap⟩ := hstep
  cases e with
  | enqueue packet => exact h.enqueue hap
  | take terminal => exact h.take hap
  | write answer => exact h.write hunf hap
  | dropPump => exact h.dropPump hap
  | pause =>
    cases hap
    exact h.of_same (.of_eq rfl rfl rfl) rfl rfl rfl rfl
  | pauseReturns =>
    obtain ⟨-, rfl⟩ := ite_some_none_eq_some.mp hap
    exact h.of_same (.of_eq rfl rfl rfl) rfl rfl rfl rfl
  | resume connected =>
    cases hap
    exact h.of_same (.resume _ _) rfl rfl rfl rfl
  | disconnected =>
    cases hap
    exact h.of_same (.setConnected _ _) rfl rfl rfl rfl
  | stopGracefully =>
    cases hap
    exact h.of_same (.stopGracefully _) rfl rfl rfl rfl
  | stopHard =>
    cases hap
    exact h.of_same (.of_eq rfl rfl rfl) rfl rfl rfl rfl
  | elsewhere writer finishes =>
    cases hap
    exact h.of_same (.of_eq rfl rfl rfl) rfl rfl rfl rfl

end

end FlowInv

/-! ### No panic -/

/-- The event can happen: the pump takes a packet when it has none, and writes the one it has. -/
def FlowRun.Enabled (s : FlowRun) : FlowEvent → Prop
  | .take _ => s.held = none
  | .write _ => s.held ≠ none
  | .dropPump => s.unstarted = []
  | .pauseReturns => 0 < s.pausing ∧ s.state.inFlight = false
  | _ => True

/-- **No panic**: an event that can happen does, a fatal write included. -/
theorem FlowInv.apply_isSome (h : FlowInv mode s) {e : FlowEvent}
    (henabled : s.Enabled e) : (s.apply S e).isSome = true := by
  have hacc := h.accounts
  cases e with
  | enqueue packet =>
    obtain ⟨result, queue, hpush, -⟩ := hacc.push packet
    rw [FlowRun.apply, isSome_map]
    exact WriterState.enqueueOwned_isSome hpush
  | take terminal =>
    rw [FlowRun.Enabled] at henabled
    rw [FlowRun.apply, if_neg (by rw [henabled]; exact Bool.false_ne_true), isSome_map]
    refine WriterState.takeItem_isSome fun hpend => ?_
    rw [FlowRun.outstanding, henabled, hpend] at hacc
    obtain ⟨packet, queue, htake, -⟩ := hacc.take rfl
    exact isSome_iff_exists.mpr ⟨_, htake⟩
  | write answer =>
    obtain ⟨⟨packet, started⟩, hheld⟩ := ne_none_iff_exists'.mp henabled
    rw [FlowRun.outstanding, hheld] at hacc
    obtain ⟨queue, hcomp, -⟩ := QueueInv.complete hacc
    simp only [FlowRun.apply, hheld, isSome_map, FlowRun.write]
    split
    · rfl
    · rfl
    · rw [isSome_map]
      exact WriterState.completeWithSignal_isSome hcomp _ _
  | dropPump =>
    rw [FlowRun.Enabled, FlowRun.unstarted] at henabled
    rw [FlowRun.apply]
    split
    · rfl
    · rfl
    next packet hheld =>
      simp [hheld] at henabled
  | pauseReturns =>
    rw [FlowRun.Enabled] at henabled
    rw [FlowRun.apply, if_pos henabled]
    rfl
  | pause | resume _ | disconnected | stopGracefully | stopHard | elsewhere _ _ => rfl

/-! ### The loop of the pump -/

/-- What one turn of the loop meets: whether the output window lets terminal output out, and the transport. -/
structure PumpTurn where
  terminal : Bool
  answer : WriteAnswer

namespace FlowRun
variable {S : Sodium} {s s' : FlowRun}

/-- The item of the next turn: the live packet, or one from the queue. -/
def tryTake (s : FlowRun) (terminal : Bool) : Option FlowRun :=
  if s.held.isSome ∨ s.state.writerMustWait = true then some s
  else (s.state.tryNextItem terminal).map (s.taken terminal)

/-- One turn of the loop of `run`, with whether there is another. -/
def pumpTurn (S : Sodium) (s : FlowRun) (turn : PumpTurn) : Option (Bool × FlowRun) := do
  let s ← s.tryTake turn.terminal
  match s.held with
  | none => return (false, s)
  | some (packet, started) =>
    let (outcome, s) ← s.write S packet started turn.answer
    match outcome with
    | .done _ _ => return (decide (s.state.stop ≠ .hard), s)
    | _ => return (false, s)

/-- The loop of `run` through the turns that are given, with whether it asks for more. -/
def pumpRun (S : Sodium) (s : FlowRun) : List PumpTurn → Option (Bool × FlowRun)
  | [] => some (true, s)
  | turn :: turns => do
      let (goesOn, s) ← s.pumpTurn S turn
      if goesOn then s.pumpRun S turns else return (false, s)

/-- A fatal write stops the pump. -/
theorem stop_of_fatal {packet : Packet} {started : Bool} {answer : WriteAnswer} {r : NonblockingWrite × FlowRun}
    (h : s.write S packet started answer = some r)
    (hfatal : (s.connection.writeNonblocking S (decide (s.state.stop = .hard)) packet started answer).1.isFatal = true) :
    r.2.state.stop = .hard := by
  rw [write] at h
  dsimp only at h
  split at h
  next hout => simp [hout, NonblockingWrite.isFatal] at hfatal
  next hout => simp [hout, NonblockingWrite.isFatal] at hfatal
  next result connected hout =>
    rw [hout] at hfatal
    obtain ⟨⟨_, state⟩, hcomp, rfl⟩ := Option.map_eq_some_iff.mp h
    cases result with
    | fatal =>
      obtain ⟨_, hres, hready⟩ := bind_eq_some_iff.mp hcomp
      obtain ⟨queue, -, rfl⟩ := Option.map_eq_some_iff.mp hres
      cases hready
      rfl
    | _ => cases hfatal

end FlowRun

/-- The packets that a queue counts, those that are off it included. -/
def OutputQueue.packets (q : OutputQueue) : Nat := q.terminalPackets + q.controlPackets

theorem OutputQueue.packets_take {q' : OutputQueue} {packet : Option Packet} (h : q.take = some (packet, q')) :
    q'.packets = q.packets := by
  obtain ⟨q₁, hprom, h⟩ := bind_eq_some_iff.mp h
  have hpromoted : q₁.packets = q.packets := by
    unfold promoteTerminalControl at hprom
    dsimp only at hprom
    split at hprom
    · cases hprom
      rfl
    split at hprom
    · cases hprom
      rfl
    split at hprom
    · cases hprom
      rfl
    · obtain ⟨_, -, hprom⟩ := bind_eq_some_iff.mp hprom
      cases hprom
      rfl
  have hpopped : q₁.popLane.2.packets = q₁.packets := by
    rcases q₁.popLane_cases with ⟨packet, rest, -, hpop⟩ | ⟨packet, rest, -, hpop⟩ | hpop <;> rw [hpop] <;> rfl
  rw [← hpromoted, ← hpopped]
  split at h <;> cases h
  next hpop => rw [hpop]
  next hpop =>
    rw [hpop]
    unfold observeTaken
    split <;> rfl

theorem OutputQueue.packets_complete {q' : OutputQueue} (h : q.complete packet = some q') :
    q'.packets + 1 = q.packets := by
  unfold complete at h
  split at h <;>
  · obtain ⟨_, -, h⟩ := bind_eq_some_iff.mp h
    obtain ⟨count, hcount, h⟩ := bind_eq_some_iff.mp h
    cases h
    simp only [Machine.checkedSub, Option.ite_none_right_eq_some, some.injEq] at hcount
    simp only [packets]
    omega

theorem SameOutput.packets {state state' : WriterState} (h : SameOutput state state') :
    state'.queue.packets = state.queue.packets := by
  obtain ⟨⟨limit, hqueue⟩, -⟩ := h
  rw [hqueue]
  rfl

namespace FlowRun
variable {S : Sodium} {s s' : FlowRun} {terminal : Bool}

/-- A packet that was taken is counted; one that is not started was taken over a connection. -/
theorem tryTake_packets (h : s.tryTake terminal = some s') : s'.state.queue.packets = s.state.queue.packets ∧
    (s'.unstarted = [] ∨ s'.unstarted = s.unstarted ∨ s.state.connected = true) := by
  unfold tryTake at h
  split at h
  · cases h
    exact ⟨rfl, .inr (.inl rfl)⟩
  rename_i hfree
  obtain ⟨-, hwait⟩ := not_or.mp hfree
  rw [WriterState.tryNextItem, if_neg hwait] at h
  obtain ⟨⟨item, state⟩, htake, rfl⟩ := map_eq_some_iff.mp h
  rcases WriterState.takeItem_cases htake with
    ⟨rfl, rfl⟩ | ⟨packet, -, rfl, rfl⟩ | ⟨hstop, hpend, packet, queue, htak, rfl, rfl⟩
  · exact ⟨rfl, .inl rfl⟩
  · exact ⟨rfl, .inl rfl⟩
  · refine ⟨?_, ?_⟩
    · cases terminal with
      | true => exact packets_take htak
      | false =>
        have hcontrol := some.inj htak
        unfold takeControl at hcontrol
        split at hcontrol <;> cases hcontrol <;> rfl
    · cases packet with
      | none => exact .inl rfl
      | some packet =>
        -- over no connection the pump waits, and a graceful stop has nothing left to take
        right
        right
        by_contra hconn
        unfold WriterState.writerMustWait at hwait
        unfold WriterState.takeItem at htake
        cases hs : s.state.stop <;> simp_all

/-- A write after which the loop goes on completes its packet, or puts it back as the connection ends. -/
theorem write_packets {packet : Packet} {started : Bool} {answer : WriteAnswer} {result : FlowWriteResult}
    {connected : Bool} (h : s.write S packet started answer = some (.done result connected, s'))
    (hstop : s'.state.stop ≠ .hard) : s'.held = none ∧ (s'.state.queue.packets + 1 = s.state.queue.packets ∨
      s'.state.queue.packets = s.state.queue.packets ∧ s'.state.connected = false ∧ started = false) := by
  have hfatal := Bool.eq_false_iff.mpr fun hfatal => hstop (stop_of_fatal h hfatal)
  rcases hcall : s.connection.writeNonblocking S (decide (s.state.stop = .hard)) packet started answer with
    ⟨outcome, connection⟩
  rw [hcall] at hfatal
  have hcases := LiveConnection.writeNonblocking_cases hcall hfatal
  rw [write, hcall] at h
  dsimp only at h
  cases outcome with
  | pending | noRoom => cases h
  | done result connected =>
    obtain ⟨⟨signal, state⟩, hcomp, heq⟩ := map_eq_some_iff.mp h
    cases heq
    refine ⟨rfl, ?_⟩
    have hnotfatal : result ≠ .fatal := by
      rintro rfl
      cases hfatal
    rcases WriterState.completeWithSignal_cases hnotfatal hcomp with ⟨rfl, hsame⟩ | ⟨-, queue, hq, hsame⟩
    · right
      refine ⟨hsame.packets.trans ?_, ?_, ?_⟩
      · unfold restoreFront
        split <;> rfl
      · unfold WriterState.completeWithSignal at hcomp
        obtain ⟨_, hap, hready⟩ := bind_eq_some_iff.mp hcomp
        cases hap
        cases hready
        simp only [WriterState.failGraceful, WriterState.setConnected]
        repeat' split
        all_goals rfl
      · rcases hcases with ⟨hstarted, -⟩ | ⟨hown, -⟩
        · exact hstarted
        · simp at hown
    · left
      rw [hsame.packets]
      exact packets_complete hq

/-- What every turn lowers. -/
def roundsLeft (s : FlowRun) : Nat := 2 * s.state.queue.packets + s.state.connected.toNat + s.unstarted.length

theorem roundsLeft_pumpTurn {turn : PumpTurn} (h : s.pumpTurn S turn = some (true, s')) :
    s'.roundsLeft < s.roundsLeft := by
  obtain ⟨s₁, htake, h⟩ := bind_eq_some_iff.mp h
  obtain ⟨hpackets, hunstarted⟩ := tryTake_packets htake
  split at h
  · cases h
  next packet started hheld =>
    obtain ⟨⟨outcome, s₂⟩, hwr, h⟩ := bind_eq_some_iff.mp h
    cases outcome with
    | pending | noRoom => cases h
    | done result connected =>
      simp only [Option.pure_def, some.injEq, Prod.mk.injEq, decide_eq_true_eq] at h
      obtain ⟨hstop, rfl⟩ := h
      obtain ⟨hnone, hless⟩ := write_packets hwr hstop
      have hlast : s₂.unstarted.length = 0 := by rw [unstarted, hnone, length_nil]
      have hbit := s₂.state.connected.toNat_le
      unfold roundsLeft
      rcases hless with hless | ⟨hsame, hended, rfl⟩
      · omega
      · have hone : s₁.unstarted = [packet] := by rw [unstarted, hheld]
        rw [hended, Bool.toNat_false]
        rcases hunstarted with hnil | hkept | hconn
        · rw [hone] at hnil
          cases hnil
        · rw [← hkept, hone, length_singleton]
          omega
        · rw [hconn, Bool.toNat_true]
          omega

end FlowRun
variable {S : Sodium} {writer : BackedWriter}

namespace FlowInv
variable (h : FlowInv mode s)
include h

/-- The pump takes what is next, or waits. -/
theorem tryTake_reach (S : Sodium) (terminal : Bool) :
    ∃ s', s.tryTake terminal = some s' ∧ ReflTransGen (FlowStep S) s s' := by
  unfold FlowRun.tryTake
  split
  · exact ⟨s, rfl, .refl⟩
  rename_i hfree
  obtain ⟨hheld, hwait⟩ := not_or.mp hfree
  obtain ⟨s', htake⟩ := isSome_iff_exists.mp
    (h.apply_isSome (S := S) (e := .take terminal) (not_isSome_iff_eq_none.mp hheld))
  refine ⟨s', ?_, .single (.step s _ s' rfl htake)⟩
  rw [FlowRun.apply, if_neg hheld] at htake
  rwa [WriterState.tryNextItem, if_neg hwait]

/-- A write after which the pump goes on is a step. -/
theorem write_reach (S : Sodium) {packet : Packet} {started : Bool} (hheld : s.held = some (packet, started))
    (answer : WriteAnswer) :
    ∃ r, s.write S packet started answer = some r ∧ (r.2.state.stop ≠ .hard → FlowStep S s r.2) := by
  obtain ⟨s', happly⟩ := isSome_iff_exists.mp
    (h.apply_isSome (S := S) (e := .write answer) (by simp [FlowRun.Enabled, hheld]))
  have hmap := happly
  rw [FlowRun.apply, hheld] at hmap
  obtain ⟨r, hwr, rfl⟩ := Option.map_eq_some_iff.mp hmap
  refine ⟨r, hwr, fun hstop => .step _ _ _ ?_ happly⟩
  rw [FlowRun.Unfailing, hheld, Option.all_some, Bool.not_eq_true', ← Bool.not_eq_true]
  exact fun hfatal => hstop (FlowRun.stop_of_fatal hwr hfatal)

/-- **The loop of `OutputPump::run`** makes steps of a run, unless it is stopped hard, and ends. -/
theorem pumpRun_reach (S : Sodium) (turns : List PumpTurn) :
    ∃ r, s.pumpRun S turns = some r ∧ (s.roundsLeft < turns.length → r.1 = false) ∧
      (r.2.state.stop ≠ .hard → ReflTransGen (FlowStep S) s r.2) := by
  induction turns generalizing s with
  | nil => exact ⟨_, rfl, nofun, fun _ => .refl⟩
  | cons turn turns ih =>
    obtain ⟨s₁, htake, hreach⟩ := h.tryTake_reach S turn.terminal
    have h₁ := reach_invariant (P := FlowInv mode) hreach h fun _ _ h => h.step
    have hlower : ∀ s', s.pumpTurn S turn = some (true, s') → s'.roundsLeft < s.roundsLeft :=
      fun _ => FlowRun.roundsLeft_pumpTurn
    simp only [FlowRun.pumpRun]
    simp only [FlowRun.pumpTurn, htake, bind_eq_bind, bind_some] at hlower ⊢
    cases hheld : s₁.held with
    | none => exact ⟨_, rfl, fun _ => rfl, fun _ => hreach⟩
    | some item =>
      obtain ⟨⟨outcome, s₂⟩, hwr, hstep⟩ := h₁.write_reach S hheld turn.answer
      simp only [hheld, hwr, bind_some] at hlower ⊢
      cases outcome with
      | done result connected =>
        simp only [Option.pure_def, bind_some] at hlower ⊢
        split
        next hgo =>
          have hless := hlower s₂ (by rw [hgo])
          have hstep := hstep (of_decide_eq_true hgo)
          obtain ⟨r, hrun, hends, hrest⟩ := ih (h₁.step hstep)
          refine ⟨r, hrun, fun hlen => hends ?_, fun hstop => (hreach.tail hstep).trans (hrest hstop)⟩
          exact hless.trans_le (Nat.le_of_lt_succ hlen)
        · exact ⟨_, rfl, fun _ => rfl, fun hstop => hreach.tail (hstep hstop)⟩
      | pending | noRoom => exact ⟨_, rfl, fun _ => rfl, fun hstop => hreach.tail (hstep hstop)⟩

end FlowInv

/-! ### Runs -/

theorem FlowInv.of_reach
    (hrun : ReflTransGen (FlowStep S) (.start (.withLimit mode limit) writer) s) : FlowInv mode s :=
  reach_invariant (P := FlowInv mode) hrun (.start mode limit writer) fun _ _ h => h.step

/-- In backpressure mode and without promotions no byte of terminal output is lost, repeated or out of order. -/
theorem session_terminal_bytes (hrun : ReflTransGen (FlowStep S) (.start (.withLimit .backpressure limit) writer) s)
    (hprom : s.promoted = false) (hcan : ∀ p ∈ ofLane true s.accepted, CanonicalTerminal p) :
    (ofLane true (s.connection.replayed ++ s.unstarted) ++ s.state.queue.terminal).flatMap taggedBytes =
      (ofLane true s.accepted).flatMap taggedBytes := by
  have hterm := (FlowInv.of_reach hrun).lanes.terminal
  rw [hprom] at hterm
  exact (hterm.taggedBytes_eq hcan).2

def flowAfter (S : Sodium) (start : FlowRun) (es : List FlowEvent) : FlowRun :=
  (execEvents (fun s e => if s.Unfailing S e then s.apply S e else none) start es).getD start

def freshWriter : BackedWriter := .new (.new zeroKey dirServerToClient) true

/-- Terminal output that merges and is put back; a control packet partly sent, handed back at a pause and finished by
the next pump; a write that fails; an exit status that has to wait. -/
def flowEvents : List FlowEvent :=
  let room : WriteAnswer := ⟨true, false, none, .finished⟩
  [.enqueue (terminalPacket "a"), .enqueue (.new 7 [1]), .enqueue (terminalPacket "b"), .take true,
    .write { room with room := false }, .take true, .write { room with step := .partly },
    .enqueue (.new terminalExitStatus [0]), .pause, .dropPump, .pauseReturns, .resume true, .take true, .write room,
    .take true, .write { room with refused := some .io }, .resume true, .take true, .write room,
    .enqueue (.new terminalExitStatus [0]), .enqueue (terminalPacket "c"), .take false, .pause, .write room]

theorem session_terminal_bytes_merged :
    let s := flowAfter Aead.plainSodium (.start (.withLimit .backpressure connectedLaneBytes) freshWriter) flowEvents
    (ofLane true (s.connection.replayed ++ s.unstarted) ++ s.state.queue.terminal).flatMap taggedBytes =
      (ofLane true s.accepted).flatMap taggedBytes :=
  session_terminal_bytes (reach_guarded .step flowEvents (by decide +kernel)) (by decide +kernel) (by decide +kernel)

/-- **No panic in any run.** An event that can happen does, and the loop of the pump, whatever it meets, ends within
two turns for each packet that is counted and three more; in a state of the run, unless it is stopped hard. -/
theorem session_output_no_panic
    (hrun : ReflTransGen (FlowStep S) (.start (.withLimit mode limit) writer) s) :
    (∀ e, s.Enabled e → (s.apply S e).isSome = true) ∧
      ∀ turns, ∃ r, s.pumpRun S turns = some r ∧ (2 * s.state.queue.packets + 3 ≤ turns.length → r.1 = false) ∧
        (r.2.state.stop ≠ .hard → ReflTransGen (FlowStep S) (.start (.withLimit mode limit) writer) r.2) := by
  have h := FlowInv.of_reach hrun
  refine ⟨fun _ => h.apply_isSome, fun turns => ?_⟩
  obtain ⟨r, hr, hends, hreach⟩ := h.pumpRun_reach S turns
  refine ⟨r, hr, fun hlen => hends ?_, fun hstop => hrun.trans (hreach hstop)⟩
  have hbit := s.state.connected.toNat_le
  have hone : s.unstarted.length ≤ 1 := by
    unfold FlowRun.unstarted
    split <;> simp
  unfold FlowRun.roundsLeft
  omega

theorem session_output_no_panic_pumped :
    ∃ r, (flowAfter Aead.plainSodium (.start (.withLimit .backpressure connectedLaneBytes) freshWriter)
        flowEvents).pumpRun Aead.plainSodium (.replicate 7 ⟨true, true, false, none, .finished⟩) = some r ∧
      r.1 = false :=
  ((session_output_no_panic (reach_guarded .step flowEvents (by decide +kernel))).2 _).imp fun _ h =>
    ⟨h.1, h.2.1 (by decide +kernel)⟩

/-! ### What the discard mode evicts -/

namespace OutputQueue
variable {q : OutputQueue} {packet : Packet}

end OutputQueue

end EternalTerminal
