import EternalTerminal.Core.QueueStream

/-!
# Core — what becomes of the packets of an output queue

An `OutputQueue` in either mode, followed packet by packet. A packet of the control lane leaves the queue as it
came. In the terminal lane later packets are merged into the last one, a promotion of tmux control lines moves bytes
between the packets that are queued, and the discard mode truncates a packet that is too large and evicts the oldest.

Main result: `queue_carries_streams`.
-/

namespace EternalTerminal
open List
open Option (bind_eq_some_iff map_eq_some_iff toList_none toList_some)

/-! ### The fate of terminal output -/

/-- The packet as it is admitted: the discard mode truncates one that is too large. -/
def FittedTo (mode : FlowControlMode) (fitted packet : Packet) : Prop :=
  fitted = packet ∨ (mode = .discard ∧ ∃ limit, truncateTerminal packet limit = .ok fitted)

/-- The queued packets after a promotion: each has as many bytes as before, and together they have the same ones. -/
def Rearranged (queued rearranged : List Packet) : Prop :=
  ∃ bodies shares, terminalBodies queued = some bodies ∧ shares.map length = bodies.map (·.1.length) ∧
    shares.flatten.Perm (bodies.flatMap Prod.fst) ∧
    rearranged = ((queued.zip bodies).zip shares).map fun entry => entry.1.1.withBuffer entry.2 entry.1.2.2

/-- What becomes of terminal output: of what was accepted, `out` left the queue and `queued` is in it. A packet is
queued last or merged into the last one; the discard mode evicts the oldest, a promotion (`promoted`) rearranges what
is queued, and the last packet that left may be put back. -/
inductive Fated (mode : FlowControlMode) (promoted : Bool) : List Packet → List Packet → List Packet → Prop where
  | empty : Fated mode promoted [] [] []
  | accept {accepted out queued queued' : List Packet} {packet fitted : Packet}
      (h : Fated mode promoted accepted out queued) (hfit : FittedTo mode fitted packet)
      (hadm : OutputQueue.Admitted fitted queued queued') : Fated mode promoted (accepted ++ [packet]) out queued'
  | evict {accepted out evicted queued : List Packet} (hmode : mode = .discard)
      (h : Fated mode promoted accepted out (evicted ++ queued)) : Fated mode promoted accepted out queued
  | promote {accepted out queued queued' : List Packet} (hpromoted : promoted = true)
      (h : Fated mode promoted accepted out queued) (hrearranged : Rearranged queued queued') :
      Fated mode promoted accepted out queued'
  | leave {accepted out queued : List Packet} {packet : Packet}
      (h : Fated mode promoted accepted out (packet :: queued)) : Fated mode promoted accepted (out ++ [packet]) queued
  | restore {accepted out queued : List Packet} {packet : Packet}
      (h : Fated mode promoted accepted (out ++ [packet]) queued) : Fated mode promoted accepted out (packet :: queued)

variable {packet : Packet}

theorem Rearranged.lane {queued rearranged : List Packet} (h : Rearranged queued rearranged)
    (hlane : ∀ packet ∈ queued, isTerminalOutput packet = true) :
    ∀ packet ∈ rearranged, isTerminalOutput packet = true := by
  obtain ⟨bodies, shares, -, -, -, rfl⟩ := h
  intro packet hmem
  obtain ⟨entry, hentry, rfl⟩ := mem_map.mp hmem
  exact hlane entry.1.1 (of_mem_zip (of_mem_zip hentry).1).1

namespace Fated
variable {mode : FlowControlMode} {promoted : Bool} {accepted out queued : List Packet}

theorem mono {promoted' : Bool} (h : Fated mode promoted accepted out queued)
    (hp : promoted = true → promoted' = true) : Fated mode promoted' accepted out queued := by
  induction h with
  | empty => exact .empty
  | accept _ hfit hadm ih => exact .accept ih hfit hadm
  | evict hmode _ ih => exact .evict hmode ih
  | promote hpromoted _ hrearranged ih => exact .promote (hp hpromoted) ih hrearranged
  | leave _ ih => exact .leave ih
  | restore _ ih => exact .restore ih

/-- Without promotions and in backpressure mode the bytes are those that were accepted, in order. -/
theorem taggedBytes_eq (h : Fated .backpressure false accepted out queued)
    (hcan : ∀ p ∈ accepted, CanonicalTerminal p) :
    (∀ p ∈ out ++ queued, CanonicalTerminal p) ∧
      (out ++ queued).flatMap taggedBytes = accepted.flatMap taggedBytes := by
  induction h with
  | empty => exact ⟨nofun, rfl⟩
  | accept _ hfit hadm ih =>
    obtain ⟨hfront, hpacket⟩ := forall_mem_append.mp hcan
    obtain ⟨hcarried, hbytes⟩ := ih hfront
    obtain rfl := hfit.resolve_right fun h => nomatch h.1
    rcases hadm with rfl | ⟨init, back, grown, bytes, isStderr, rfl, rfl, -, hdec, happ⟩
    · rw [← append_assoc]
      exact ⟨forall_mem_append.mpr ⟨hcarried, hpacket⟩, by rw [flatMap_append, hbytes, flatMap_append]⟩
    · rw [← append_assoc] at hcarried hbytes ⊢
      obtain ⟨hinit, hback⟩ := forall_mem_append.mp hcarried
      obtain ⟨hgrown, htag⟩ := (hback back mem_cons_self).append (hpacket _ mem_cons_self) hdec happ
      refine ⟨forall_mem_append.mpr ⟨hinit, forall_mem_singleton.mpr hgrown⟩, ?_⟩
      rw [flatMap_append] at hbytes
      simp [← hbytes, htag]
  | evict hmode => exact nomatch hmode
  | promote hpromoted => exact nomatch hpromoted
  | leave _ ih =>
    rw [append_assoc]
    exact ih hcan
  | restore _ ih =>
    have hback := ih hcan
    rwa [append_assoc] at hback

end Fated

/-! ### The operations of a queue -/

namespace OutputQueue
variable {q : OutputQueue} {packet fitted : Packet} {bytes bytes' : Nat}

theorem fit_spec (h : q.fit packet = .ok fitted) :
    FittedTo q.mode fitted packet := by
  unfold fit at h
  split at h
  · split at h
    · cases h
    next hmode =>
      have hdis : q.mode = .discard := by
        cases hm : q.mode with
        | backpressure => exact absurd hm hmode
        | discard => rfl
      refine .inr ⟨hdis, q.limit, ?_⟩
      cases htruncate : truncateTerminal packet q.limit with
      | error e => simp [htruncate, Except.mapError] at h
      | ok truncated => simpa [htruncate, Except.mapError] using h
  · obtain rfl := Except.ok.inj h
    exact .inl rfl

theorem evict_suffix {limit wanted : Nat} {packets kept : List Packet} {count count' : Nat}
    {fits : Bool} (h : evict limit wanted packets bytes count = some (fits, kept, bytes', count')) :
    ∃ evicted, packets = evicted ++ kept := by
  induction packets generalizing bytes count with
  | nil =>
    rw [evict] at h
    simp only [Option.some.injEq, Prod.mk.injEq] at h
    exact ⟨[], h.2.1⟩
  | cons removed packets ih =>
    rw [evict] at h
    split at h
    · obtain ⟨_, -, h⟩ := bind_eq_some_iff.mp h
      obtain ⟨_, -, h⟩ := bind_eq_some_iff.mp h
      obtain ⟨evicted, rfl⟩ := ih h
      exact ⟨removed :: evicted, rfl⟩
    · simp only [Option.some.injEq, Prod.mk.injEq] at h
      exact ⟨[], h.2.1⟩

/-- **A terminal push** while no line is being skipped: the discard mode may evict the front of the lane, and
the packet is admitted or refused. -/
theorem pushTerminal_cases {q' : OutputQueue} {result : Except QueuePushError Unit}
    (hskip : q.skipUntilNewline = false) (h : q.pushTerminal packet = some (result, q')) :
    (q'.mode = q.mode ∧ q'.skipUntilNewline = false ∧ q'.control = q.control) ∧
      ∃ evicted rest, q.terminal = evicted ++ rest ∧ (evicted = [] ∨ q.mode = .discard) ∧
        ((result = .ok () ∧ ∃ fitted, FittedTo q.mode fitted packet ∧ fitted.header = packet.header ∧
            Admitted fitted rest q'.terminal) ∨
          (result ≠ .ok () ∧ q'.terminal = rest)) := by
  unfold pushTerminal at h
  rw [skipThroughNewline_of_not hskip] at h
  dsimp only at h
  split at h
  · cases h
    exact ⟨⟨rfl, hskip, rfl⟩, [], _, rfl, .inl rfl, .inr ⟨by nofun, rfl⟩⟩
  rename_i fitted hfit
  have hhd := fit_header hfit
  split at h
  · cases h
    exact ⟨⟨rfl, hskip, rfl⟩, [], _, rfl, .inl rfl, .inr ⟨by nofun, rfl⟩⟩
  rename_i hroom
  obtain ⟨⟨fits, rest, bytes, count⟩, hevict, h⟩ := bind_eq_some_iff.mp h
  obtain ⟨evicted, hlane⟩ := evict_suffix hevict
  have hmode : evicted = [] ∨ q.mode = .discard := by
    cases hm : q.mode with
    | discard => exact .inr rfl
    | backpressure =>
      -- nothing is evicted where there is room, and without room the packet was refused
      rw [not_and, not_or, Nat.not_lt, Nat.not_le] at hroom
      obtain ⟨hbs, hcnt⟩ := hroom hm
      rw [evict_of_room q.terminal hbs hcnt] at hevict
      simp only [Option.some.injEq, Prod.mk.injEq] at hevict
      rw [← hevict.2.1] at hlane
      exact .inl (by simpa using hlane)
  dsimp only at h
  split at h
  · obtain ⟨q₂, happ, h⟩ := bind_eq_some_iff.mp h
    cases h
    obtain ⟨⟨_, _, _, _, rfl⟩, hadm⟩ := appendTerminal_cases happ
    exact ⟨⟨rfl, hskip, rfl⟩, evicted, rest, hlane, hmode, .inl ⟨rfl, fitted, fit_spec hfit, hhd, hadm⟩⟩
  · cases h
    exact ⟨⟨rfl, hskip, rfl⟩, evicted, rest, hlane, hmode, .inr ⟨by nofun, rfl⟩⟩

theorem Admitted.lane {lane lane' : List Packet} (h : Admitted fitted lane lane')
    (hfitted : isTerminalOutput fitted = true) (hlane : ∀ p ∈ lane, isTerminalOutput p = true) :
    ∀ p ∈ lane', isTerminalOutput p = true := by
  rcases h with rfl | ⟨init, back, grown, bytes, isStderr, rfl, rfl, hsame, -⟩
  · exact forall_mem_append.mpr ⟨hlane, forall_mem_singleton.mpr hfitted⟩
  · rw [forall_mem_append, forall_mem_singleton, isTerminalOutput] at hlane ⊢
    rwa [hsame]

/-- Every packet gets its share of the promoted bytes, as long as its own. -/
theorem redistribute_shares {entries : List (Packet × Bytes × Option Bool)} {rewritten : List Packet}
    {remaining : Bytes} (h : redistribute entries remaining bytes = some (rewritten, bytes')) :
    ∃ shares : List Bytes, shares.map length = entries.map (·.2.1.length) ∧ shares.flatten <+: remaining ∧
      rewritten = (entries.zip shares).map fun entry => entry.1.1.withBuffer entry.2 entry.1.2.2 := by
  induction entries generalizing remaining rewritten bytes bytes' with
  | nil =>
    cases h
    exact ⟨[], rfl, nil_prefix, rfl⟩
  | cons entry entries ih =>
    obtain ⟨packet, body, isStderr⟩ := entry
    rw [redistribute] at h
    obtain ⟨_, -, h⟩ := bind_eq_some_iff.mp h
    obtain ⟨_, hgd, h⟩ := bind_eq_some_iff.mp h
    obtain ⟨⟨tail, _⟩, htail, h⟩ := bind_eq_some_iff.mp h
    cases h
    have hle : body.length ≤ remaining.length := by
      by_contra hlt
      simp [guard, hlt] at hgd
    obtain ⟨shares, hlen, ⟨rest, hrest⟩, rfl⟩ := ih htail
    refine ⟨remaining.take body.length :: shares, by simp [hlen, hle], ⟨rest, ?_⟩, rfl⟩
    rw [flatten_cons, append_assoc, hrest, take_append_drop]

/-- **A promotion rearranges the queue.** -/
theorem redistribute_rearranged {packets rewritten : List Packet} {bodies : List (Bytes × Option Bool)}
    {promoted : Bytes} (hbod : terminalBodies packets = some bodies) (hperm : promoted.Perm (bodies.flatMap Prod.fst))
    (h : redistribute (packets.zip bodies) promoted bytes = some (rewritten, bytes')) :
    Rearranged packets rewritten := by
  obtain ⟨shares, hlen, hfront, rfl⟩ := redistribute_shares h
  have hbodies : shares.map length = bodies.map (·.1.length) := by
    conv_rhs => rw [← map_snd_zip (terminalBodies_length hbod).le, map_map]
    exact hlen
  refine ⟨bodies, shares, hbod, hbodies, ?_, rfl⟩
  rw [hfront.eq_of_length]
  · exact hperm
  · rw [hperm.length_eq, length_flatten, length_flatMap, hbodies]

end OutputQueue

/-! ### Both lanes -/

/-- The lanes of a queue and what left it, `out`: the control packets as they were accepted, and the terminal packets
as `Fated`. -/
structure Lanes (mode : FlowControlMode) (promoted : Bool) (accepted out : List Packet) (q : OutputQueue) :
    Prop where
  inMode : q.mode = mode
  skips : q.skipUntilNewline = false
  terminalLane : ∀ packet ∈ q.terminal, isTerminalOutput packet = true
  controlLane : ∀ packet ∈ q.control, isTerminalOutput packet = false
  control : ofLane false out ++ q.control = ofLane false accepted
  terminal : Fated mode promoted (ofLane true accepted) (ofLane true out) q.terminal

namespace Lanes
variable {mode : FlowControlMode} {promoted : Bool} {accepted out : List Packet} {q q' : OutputQueue}

theorem new (mode : FlowControlMode) (promoted : Bool) (limit : Nat) :
    Lanes mode promoted [] [] (.new mode limit) :=
  ⟨rfl, rfl, nofun, nofun, rfl, .empty⟩

theorem mono {promoted' : Bool} (h : Lanes mode promoted accepted out q)
    (hp : promoted = true → promoted' = true) : Lanes mode promoted' accepted out q :=
  { h with terminal := h.terminal.mono hp }

variable {packet : Packet}

section
variable (h : Lanes mode promoted accepted out q)
include h

theorem push {result : Except QueuePushError Unit} (hpush : q.push packet = some (result, q')) :
    Lanes mode promoted (accepted ++ if result = .ok () then [packet] else []) out q' := by
  unfold OutputQueue.push at hpush
  cases hlane : isTerminalOutput packet with
  | true =>
    rw [hlane, if_pos rfl] at hpush
    obtain ⟨⟨hmode, hsk, hctl⟩, evicted, rest, hq, hevicted, hcas⟩ :=
      OutputQueue.pushTerminal_cases h.skips hpush
    rw [h.inMode] at hevicted hcas
    -- the lane without what is evicted
    have hrest : Fated mode promoted (ofLane true accepted) (ofLane true out) rest := by
      have hterm := h.terminal
      rw [hq] at hterm
      rcases hevicted with rfl | hmode
      · exact hterm
      · exact hterm.evict hmode
    have hrestLane : ∀ p ∈ rest, isTerminalOutput p = true := fun p hp =>
      h.terminalLane p (by rw [hq]; exact mem_append_right _ hp)
    rcases hcas with ⟨rfl, fitted, hfit, hhd, hadm⟩ | ⟨href, hsame⟩
    · have hfitted : isTerminalOutput fitted = true := by rwa [isTerminalOutput, hhd]
      rw [if_pos rfl]
      refine ⟨hmode.trans h.inMode, hsk, hadm.lane hfitted hrestLane, hctl ▸ h.controlLane, ?_, ?_⟩
      · rw [hctl, h.control, ofLane_append, ofLane_singleton, if_neg (by simp [hlane]), append_nil]
      · rw [ofLane_append, ofLane_singleton, if_pos hlane]
        exact hrest.accept hfit hadm
    · rw [if_neg href, append_nil]
      refine ⟨hmode.trans h.inMode, hsk, ?_, hctl ▸ h.controlLane, by rw [hctl, h.control], ?_⟩
      · rwa [hsame]
      · rwa [hsame]
  | false =>
    rw [hlane, if_neg Bool.false_ne_true] at hpush
    rcases OutputQueue.pushControl_cases (Option.some.inj hpush) with
      ⟨rfl, bytes, packets, rfl⟩ | ⟨rfl, hres⟩
    · rw [if_pos rfl]
      refine ⟨h.inMode, h.skips, h.terminalLane,
        forall_mem_append.mpr ⟨h.controlLane, forall_mem_singleton.mpr hlane⟩, ?_, ?_⟩
      · rw [ofLane_append, ofLane_singleton, if_pos hlane, ← h.control, append_assoc]
      · rw [ofLane_append, ofLane_singleton, if_neg (by simp [hlane]), append_nil]
        exact h.terminal
    · have href : result ≠ .ok () := by rcases hres with rfl | rfl <;> simp
      rw [if_neg href, append_nil]
      exact h

theorem promote (hprom : q.promoteTerminalControl = some q') :
    Lanes mode (promoted || q.promotes) accepted out q' := by
  cases hp : q.promotes with
  | false =>
    obtain ⟨pending, hsame⟩ := OutputQueue.promoteTerminalControl_of_not_promotes hp
    obtain rfl := Option.some.inj (hsame.symm.trans hprom)
    rw [Bool.or_false]
    exact { h with }
  | true =>
    rw [Bool.or_true]
    have h' : Lanes mode true accepted out q := h.mono fun _ => rfl
    unfold OutputQueue.promoteTerminalControl at hprom
    split at hprom
    · cases hprom
      exact h'
    dsimp only at hprom
    split at hprom
    · cases hprom
      exact { h' with }
    rename_i bodies hbod
    split at hprom
    · cases hprom
      exact { h' with }
    rename_i promoted hpromote
    obtain ⟨⟨rewritten, bytes⟩, hredistribute, hprom⟩ := bind_eq_some_iff.mp hprom
    cases hprom
    have hrearranged := OutputQueue.redistribute_rearranged hbod (TerminalStream.perm_promoteControl hpromote)
      hredistribute
    exact { h' with
      terminalLane := hrearranged.lane h.terminalLane
      terminal := h'.terminal.promote rfl hrearranged }

theorem popControl {rest : List Packet} (hq : q.control = packet :: rest) :
    Lanes mode promoted accepted (out ++ [packet]) { q with control := rest } := by
  obtain ⟨hp, hrest⟩ := forall_mem_cons.mp (hq ▸ h.controlLane)
  refine ⟨h.inMode, h.skips, h.terminalLane, hrest, ?_, ?_⟩
  · rw [← h.control, hq, ofLane_append, ofLane_singleton, if_pos hp, append_assoc]
    rfl
  · rw [ofLane_append, ofLane_singleton, if_neg (by simp [hp]), append_nil]
    exact h.terminal

theorem popLane : Lanes mode promoted accepted (out ++ q.popLane.1.toList) q.popLane.2 := by
  rcases q.popLane_cases with ⟨packet, rest, hq, hpop⟩ | ⟨packet, rest, hq, hpop⟩ | hpop
  · obtain ⟨hp, hrest⟩ := forall_mem_cons.mp (hq ▸ h.terminalLane)
    rw [hpop]
    refine ⟨h.inMode, h.skips, hrest, h.controlLane, ?_, ?_⟩
    · rw [toList_some, ofLane_append, ofLane_singleton, if_neg (by simp [hp]), append_nil]
      exact h.control
    · have hterm := h.terminal
      rw [hq] at hterm
      rw [toList_some, ofLane_append, ofLane_singleton, if_pos hp]
      exact hterm.leave
  · rw [hpop]
    exact h.popControl hq
  · rw [hpop, toList_none, append_nil]
    exact h

theorem take {packet : Option Packet} (htake : q.take = some (packet, q')) :
    Lanes mode (promoted || q.promotes) accepted (out ++ packet.toList) q' := by
  unfold OutputQueue.take at htake
  obtain ⟨q₁, hprom, htake⟩ := bind_eq_some_iff.mp htake
  have hpop := (h.promote hprom).popLane
  rcases hres : q₁.popLane with ⟨popped, q₂⟩
  rw [hres] at hpop htake
  cases popped with
  | none =>
    cases htake
    exact hpop
  | some popped =>
    cases htake
    unfold OutputQueue.observeTaken
    split <;> exact { hpop with }

theorem takeControl : Lanes mode promoted accepted (out ++ q.takeControl.1.toList) q.takeControl.2 := by
  unfold OutputQueue.takeControl
  cases hq : q.control with
  | nil =>
    rw [toList_none, append_nil]
    exact h
  | cons packet rest => exact { h.popControl hq with }

theorem complete (hcomp : q.complete packet = some q') : Lanes mode promoted accepted out q' := by
  unfold OutputQueue.complete at hcomp
  split at hcomp <;>
  · obtain ⟨_, -, hcomp⟩ := bind_eq_some_iff.mp hcomp
    obtain ⟨_, -, hcomp⟩ := bind_eq_some_iff.mp hcomp
    cases hcomp
    exact { h with }

end

/-- The last packet that left the queue goes back to the front of its lane. -/
theorem restoreFront (h : Lanes mode promoted accepted (out ++ [packet]) q) :
    Lanes mode promoted accepted out (q.restoreFront packet) := by
  obtain ⟨hmode, hsk, hterminalLane, hcontrolLane, hctl, hterm⟩ := h
  rw [ofLane_append, ofLane_singleton] at hctl hterm
  unfold OutputQueue.restoreFront
  cases hp : isTerminalOutput packet with
  | true =>
    rw [hp, if_neg (by simp), append_nil] at hctl
    rw [hp, if_pos rfl] at hterm
    exact ⟨hmode, hsk, forall_mem_cons.mpr ⟨hp, hterminalLane⟩, hcontrolLane, hctl, hterm.restore⟩
  | false =>
    rw [hp, if_pos rfl, append_assoc] at hctl
    rw [hp, if_neg (by simp), append_nil] at hterm
    exact ⟨hmode, hsk, hterminalLane, forall_mem_cons.mpr ⟨hp, hcontrolLane⟩, hctl, hterm⟩

end Lanes

/-! ### Runs that remember -/

/-- A run of a queue with the packets whose push was `Ok` and the packets that were completed. -/
structure TracedRun where
  run : QueueRun
  accepted : List Packet
  completed : List Packet

namespace TracedRun

def new (mode : FlowControlMode) (limit : Nat) : TracedRun := ⟨⟨.new mode limit, none⟩, [], []⟩

def apply (s : TracedRun) : QueueEvent → Option TracedRun
  | .push packet =>
    (s.run.queue.push packet).map fun r =>
      { s with
        run := { s.run with queue := r.2 }
        accepted := s.accepted ++ if r.1 = .ok () then [packet] else [] }
  | .complete =>
    (s.run.apply .complete).map fun run =>
      { s with run := run, completed := s.completed ++ s.run.inFlight.toList }
  | e => (s.run.apply e).map fun run => { s with run := run }

/-- Pushes of canonical terminal packets and of control packets, takes with nothing in flight that
promote nothing, completions and restorations. -/
def Streams (s : TracedRun) : QueueEvent → Prop
  | .push packet => isTerminalOutput packet = true → CanonicalTerminal packet
  | .take => s.run.inFlight = none ∧ s.run.queue.promotes = false
  | .takeControl => s.run.inFlight = none
  | .complete | .restoreFront => True
  | .flushTerminalOnInterrupt | .discardDrainedTerminal _ | .setLimit _ => False

instance (s : TracedRun) : ∀ e, Decidable (s.Streams e)
  | .push packet => inferInstanceAs (Decidable (isTerminalOutput packet = true → CanonicalTerminal packet))
  | .take => inferInstanceAs (Decidable (s.run.inFlight = none ∧ s.run.queue.promotes = false))
  | .takeControl => inferInstanceAs (Decidable (s.run.inFlight = none))
  | .complete | .restoreFront => inferInstanceAs (Decidable True)
  | .flushTerminalOnInterrupt | .discardDrainedTerminal _ | .setLimit _ => inferInstanceAs (Decidable False)

end TracedRun

/-- One event on the streams. -/
inductive StreamStep : TracedRun → TracedRun → Prop where
  | step (s : TracedRun) (e : QueueEvent) (s' : TracedRun) (hstreams : s.Streams e)
      (h : s.apply e = some s') : StreamStep s s'

/-- Both lanes are intact, and what was accepted is canonical. -/
structure TracedInv (s : TracedRun) : Prop where
  lanes : Lanes .backpressure false s.accepted (s.completed ++ s.run.inFlight.toList) s.run.queue
  canonical : ∀ packet ∈ ofLane true s.accepted, CanonicalTerminal packet

namespace TracedInv
variable {s s' : TracedRun}

theorem push (h : TracedInv s) {packet : Packet} (hp : isTerminalOutput packet = true → CanonicalTerminal packet)
    {result : Except QueuePushError Unit} {q : OutputQueue} (hpush : s.run.queue.push packet = some (result, q)) :
    TracedInv { s with
      run := { s.run with queue := q }
      accepted := s.accepted ++ if result = .ok () then [packet] else [] } := by
  refine ⟨h.lanes.push hpush, fun p hmem => ?_⟩
  rw [ofLane_append] at hmem
  rcases mem_append.mp hmem with hmem | hmem
  · exact h.canonical p hmem
  · split at hmem
    · rw [ofLane_singleton] at hmem
      split at hmem
      next hterm =>
        rw [mem_singleton.mp hmem]
        exact hp hterm
      · cases hmem
    · cases hmem

/-- **Every operation keeps both streams.** -/
theorem step (h : TracedInv s) (hstep : StreamStep s s') : TracedInv s' := by
  obtain ⟨e, _, hstrs, hap⟩ := hstep
  obtain ⟨⟨q, inFlight⟩, accepted, completed⟩ := s
  cases e with
  | push packet =>
    obtain ⟨⟨result, q⟩, hpush, rfl⟩ := map_eq_some_iff.mp hap
    exact h.push hstrs hpush
  | take =>
    obtain ⟨rfl, hprom⟩ : inFlight = none ∧ q.promotes = false := hstrs
    simp only [TracedRun.apply, QueueRun.apply, Option.map_map] at hap
    obtain ⟨⟨packet, q'⟩, htake, rfl⟩ := map_eq_some_iff.mp hap
    have htak := h.lanes.take htake
    simp only [hprom, Bool.or_false, toList_none, append_nil] at htak
    exact ⟨htak, h.canonical⟩
  | takeControl =>
    cases hap
    obtain rfl : inFlight = none := hstrs
    have htak := h.lanes.takeControl
    rw [toList_none, append_nil] at htak
    exact ⟨htak, h.canonical⟩
  | complete =>
    obtain ⟨run, hrun, rfl⟩ := map_eq_some_iff.mp hap
    cases inFlight with
    | none =>
      cases hrun
      rw [toList_none, append_nil]
      exact h
    | some packet =>
      obtain ⟨q, hcomp, rfl⟩ := map_eq_some_iff.mp hrun
      have hcompleted := h.lanes.complete hcomp
      rw [← append_nil (completed ++ _)] at hcompleted
      exact ⟨hcompleted, h.canonical⟩
  | restoreFront =>
    obtain ⟨run, hrun, rfl⟩ := map_eq_some_iff.mp hap
    cases inFlight with
    | none =>
      cases hrun
      exact h
    | some packet =>
      cases hrun
      have hrestored := h.lanes.restoreFront
      rw [← append_nil completed] at hrestored
      exact ⟨hrestored, h.canonical⟩
  | flushTerminalOnInterrupt | discardDrainedTerminal | setLimit => exact hstrs.elim

end TracedInv

/-- A push that is refused in backpressure mode gives the packet back from a queue that has not changed. -/
theorem OutputQueue.push_refused {q q' : OutputQueue} {e : QueuePushError}
    (hmode : q.mode = .backpressure) (hskip : q.skipUntilNewline = false)
    (h : q.push packet = some (.error e, q')) : q' = q ∧ (e = .full packet ∨ e = .oversized packet) := by
  unfold push at h
  split at h
  · obtain ⟨hsame, hres⟩ := (pushTerminal_rest (skipThroughNewline_of_not hskip) hmode h).resolve_left
      fun hok => nomatch hok.1
    exact ⟨hsame, hres.imp Except.error.inj Except.error.inj⟩
  · obtain ⟨hsame, hres⟩ := (pushControl_cases (Option.some.inj h)).resolve_left fun hok => nomatch hok.1
    exact ⟨hsame, hres.imp Except.error.inj Except.error.inj⟩

/-- **A backpressure queue carries two streams.**  In every run without promotions and interrupts, the
terminal bytes that were completed, are in flight and are queued, each with its stderr flag, are those
of the accepted pushes in order; the control packets are the accepted ones in order; and a refused push
changes nothing and gives the packet back as it was. -/
theorem queue_carries_streams {limit : Nat} {s : TracedRun}
    (hrun : Relation.ReflTransGen StreamStep (.new .backpressure limit) s) :
    (ofLane true (s.completed ++ s.run.inFlight.toList) ++ s.run.queue.terminal).flatMap taggedBytes =
        (ofLane true s.accepted).flatMap taggedBytes ∧
      ofLane false (s.completed ++ s.run.inFlight.toList) ++ s.run.queue.control = ofLane false s.accepted ∧
      ∀ packet e q', s.Streams (.push packet) → s.run.queue.push packet = some (.error e, q') →
        q' = s.run.queue ∧ (e = .full packet ∨ e = .oversized packet) := by
  have h : TracedInv s :=
    reach_invariant (P := TracedInv) hrun ⟨.new .backpressure false limit, nofun⟩ fun _ _ => .step
  have hterminal := (h.lanes.terminal.taggedBytes_eq h.canonical).2
  exact ⟨hterminal, h.lanes.control, fun packet e q' _ => OutputQueue.push_refused h.lanes.inMode h.lanes.skips⟩

/-- The state after events that are allowed, or `start` when one is not. -/
def streamAfter (start : TracedRun) (es : List QueueEvent) : TracedRun :=
  (execEvents (fun s e => if s.Streams e then s.apply e else none) start es).getD start

/-- Stdout that merges, stderr that does not, a control packet, a packet restored and taken again, and a
refused push. -/
def streamEvents : List QueueEvent :=
  [.push (terminalPacket "a"), .push (.new terminalBuffer (encodeTerminalBuffer (ascii "e") true)),
    .push (.new 7 [1]), .take, .restoreFront, .push (.new terminalBuffer (encodeTerminalBuffer (ascii "f") true)),
    .take, .complete, .take, .complete, .push (.new 7 (ascii "longer than the queue can hold")), .take]

theorem queue_carries_streams_merged :
    let s := streamAfter (.new .backpressure 40) streamEvents
    (ofLane true s.accepted).flatMap taggedBytes = [(0x61, false), (0x65, true), (0x66, true)] ∧
      (ofLane true (s.completed ++ s.run.inFlight.toList) ++ s.run.queue.terminal).flatMap taggedBytes =
        (ofLane true s.accepted).flatMap taggedBytes :=
  ⟨by decide +kernel, (queue_carries_streams (reach_guarded .step streamEvents (by decide +kernel))).1⟩

end EternalTerminal
