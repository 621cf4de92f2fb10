import EternalTerminal.Core.OutputWindow

/-!
# Core — how long output waits

A window that blocks says until when.  `Waits` is what it remembers between the calls: the stall it counts from, or
that it was released.  `PeerLog` records what the peer did, so that a window that blocks is traced back to it
(`PeerLog.Explains`).
-/

namespace EternalTerminal
open List

/-- A call of `blocked`. -/
structure BlockedCall where
  acknowledged : Int
  unacknowledged : Nat
  now : Nat

namespace OutputWindow
variable {w : OutputWindow} {a : Int} {u t now : Nat}

def answer (w : OutputWindow) (c : BlockedCall) : Option Nat := (w.blocked c.acknowledged c.unacknowledged c.now).1

def asked (w : OutputWindow) (c : BlockedCall) : OutputWindow := (w.blocked c.acknowledged c.unacknowledged c.now).2

/-- It waits until `t` for more than `a` to be acknowledged, with a backlog of `u` at least, or was released. -/
structure Waits (w : OutputWindow) (a : Int) (u t : Nat) : Prop where
  armed : w.armed = true
  here : w.acknowledgedHere = true
  full : w.window ≤ w.unacknowledgedTerminal u
  stall : w.released = some a ∨ w.released = none ∧ ∃ since, w.stalled = some (a, since) ∧ t = since + outputPatience

/-- A full window counts from the stall it knows, or from now, and is released when that is over. -/
theorem hold_full (a : Int) (now : Nat) (hfull : w.window ≤ w.unacknowledgedTerminal u) :
    ∃ since, (w.stalled = some (a, since) ∨ since = now ∧ ∀ s, w.stalled ≠ some (a, s)) ∧
      w.hold a u now = if outputPatience ≤ now - since then (none, { w with released := some a, stalled := none })
        else (some (since + outputPatience), { w with stalled := some (a, since) }) := by
  have hnow : ¬ outputPatience ≤ now - now := by
    rw [Nat.sub_self]
    decide
  rw [hold, if_neg (Nat.not_lt.mpr hfull)]
  split
  next seen since hstalled =>
    by_cases hseen : seen = a
    · subst hseen
      exact ⟨since, .inl hstalled, by rw [if_pos rfl, ← hstalled]⟩
    · exact ⟨now, .inr ⟨rfl, by simp [hstalled, hseen]⟩, by rw [if_neg hseen, if_neg hnow]⟩
  next hstalled =>
    exact ⟨now, .inr ⟨rfl, by simp [hstalled]⟩, by rw [if_neg hnow]⟩

theorem waits_of_hold (harmed : w.armed = true) (hhere : w.acknowledgedHere = true) (hrel : w.released = none)
    (h : (w.hold a u now).1 = some t) : (w.hold a u now).2.Waits a u t := by
  by_cases hfull : w.window ≤ w.unacknowledgedTerminal u
  · obtain ⟨since, -, heq⟩ := hold_full a now hfull
    rw [heq] at h ⊢
    split at h
    · cases h
    next hsince =>
      cases h
      rw [if_neg hsince]
      exact ⟨harmed, hhere, hfull, .inr ⟨hrel, since, rfl, rfl⟩⟩
  · rw [hold, if_pos (Nat.not_le.mp hfull)] at h
    cases h

theorem waits_of_blocked (h : (w.blocked a u now).1 = some t) : (w.blocked a u now).2.Waits a u t := by
  unfold blocked at h ⊢
  split at h
  · cases h
  rename_i hon
  rw [if_neg hon]
  obtain ⟨harmed, hhere⟩ : w.armed = true ∧ w.acknowledgedHere = true := by simpa using hon
  split at h
  · split at h
    · cases h
    rename_i released hrel hlater
    rw [if_neg hlater]
    exact waits_of_hold harmed hhere rfl h
  next hrel =>
    exact waits_of_hold harmed hhere hrel h

section
variable (h : w.Waits a u t)
include h

/-- A window that was released stays so until more is acknowledged. -/
theorem Waits.blocked_of_released (hrel : w.released = some a) {a' : Int} (ha : a' ≤ a) (u' : Nat) :
    w.blocked a' u' now = (none, w) := by
  rw [blocked, if_neg (by simp [h.armed, h.here]), hrel]
  exact if_pos ha

/-- One call for `a`: the window goes on waiting, and from `t` on it is released. -/
theorem Waits.blocked {u' : Nat} (hu : u ≤ u') (now : Nat) :
    (w.blocked a u' now).2.Waits a u t ∧
      (t ≤ now → (w.blocked a u' now).1 = none ∧ (w.blocked a u' now).2.released = some a) := by
  rcases h.stall with hrel | ⟨hrel, since, hstalled, rfl⟩
  · rw [h.blocked_of_released hrel le_rfl]
    exact ⟨h, fun _ => ⟨rfl, hrel⟩⟩
  have hblocked : w.blocked a u' now = w.hold a u' now := by
    rw [OutputWindow.blocked, if_neg (by simp [h.armed, h.here]), hrel]
  obtain ⟨since', hsince, heq⟩ := hold_full a now (h.full.trans (min_le_min_left _ hu))
  obtain rfl : since' = since := by
    rcases hsince with hsame | ⟨-, hno⟩
    · rw [hstalled] at hsame
      cases hsame
      rfl
    · exact absurd hstalled (hno since)
  rw [hblocked, heq]
  split
  · exact ⟨{ h with stall := .inl rfl }, fun _ => ⟨rfl, rfl⟩⟩
  next hpatience =>
    exact ⟨{ h with stall := .inr ⟨hrel, since', rfl, rfl⟩ }, fun ht => absurd (by omega) hpatience⟩

theorem Waits.blocked_none (ht : t ≤ now) (u' : Nat) : (w.blocked a u' now).1 = none := by
  by_cases hfull : w.window ≤ w.unacknowledgedTerminal u'
  · exact ((Waits.mk h.armed h.here hfull h.stall).blocked le_rfl now).2 ht |>.1
  rcases h.stall with hrel | ⟨hrel, -⟩
  · rw [h.blocked_of_released hrel le_rfl]
  · rw [OutputWindow.blocked, if_neg (by simp [h.armed, h.here]), hrel]
    exact congrArg Prod.fst (if_pos (Nat.not_le.mp hfull))

/-- Calls for `a`, one after the other. -/
theorem Waits.foldl {calls : List BlockedCall} (hcalls : ∀ c ∈ calls, c.acknowledged = a ∧ u ≤ c.unacknowledged) :
    (calls.foldl asked w).Waits a u t := by
  induction calls generalizing w with
  | nil => exact h
  | cons c calls ih =>
    obtain ⟨⟨rfl, hu⟩, hrest⟩ := forall_mem_cons.mp hcalls
    exact ih (h.blocked hu c.now).1 hrest

theorem Waits.foldl_released (hrel : w.released = some a) {calls : List BlockedCall}
    (hcalls : ∀ c ∈ calls, c.acknowledged ≤ a) : calls.foldl asked w = w := by
  induction calls with
  | nil => rfl
  | cons c calls ih =>
    obtain ⟨hc, hrest⟩ := forall_mem_cons.mp hcalls
    rw [foldl_cons, asked, h.blocked_of_released hrel hc]
    exact ih hrest

end

end OutputWindow

/-! ### What the peer did -/

/-- A call on the window. -/
inductive WindowCall where
  | write (sequence : Int) (length : Nat) (terminal carriesAck : Bool) (now : Nat)
  | ack (acknowledged : Int) (unacknowledged now : Nat)
  | blocked (call : BlockedCall)
  | newTransport
  | seed (rtt : Nat)

/-- What the peer did so far. -/
structure PeerLog where
  /-- It acknowledged something on this transport. -/
  acknowledged : Bool := false
  /-- The packets of this transport that carried an acknowledgement of this side. -/
  carried : List Int := []
  /-- It acknowledged such a packet, on some transport. -/
  read : Bool := false

namespace WindowCall

def window (w : OutputWindow) : WindowCall → OutputWindow
  | write sequence length terminal carriesAck now => w.onWrite sequence length terminal carriesAck now
  | ack acknowledged unacknowledged now => w.onAck acknowledged unacknowledged now
  | blocked call => w.asked call
  | newTransport => w.forNewTransport
  | seed rtt => w.seedRoundTrip rtt

def log (l : PeerLog) : WindowCall → PeerLog
  | write sequence _ _ carriesAck _ => if carriesAck then { l with carried := sequence :: l.carried } else l
  | ack acknowledged _ _ =>
    { l with acknowledged := true, read := l.read || l.carried.any (· ≤ acknowledged) }
  | newTransport => { l with acknowledged := false, carried := [] }
  | blocked _ | seed _ => l

end WindowCall

/-- The window has learnt from the peer only what the peer did. -/
structure PeerLog.Explains (l : PeerLog) (w : OutputWindow) : Prop where
  here : w.acknowledgedHere = true → l.acknowledged = true
  carried : ∀ sequence ∈ w.ackWritten, sequence ∈ l.carried
  read : w.peerReadsAcks = true → l.read = true
  armed : w.armed = true → w.peerReadsAcks = true

namespace OutputWindow

/-- What a window has learnt from its peer, and what it waits to see acknowledged. -/
def learnt (w : OutputWindow) : Bool × Option Int × Bool × Bool :=
  (w.acknowledgedHere, w.ackWritten, w.peerReadsAcks, w.armed)

theorem learnt_onWrite (w : OutputWindow) (sequence : Int) (length : Nat) (terminal carriesAck : Bool) (now : Nat) :
    (w.onWrite sequence length terminal carriesAck now).learnt =
      (w.count sequence length terminal carriesAck).learnt := by
  unfold onWrite mark
  dsimp only
  split
  · rfl
  · split <;> rfl

theorem learnt_asked (w : OutputWindow) (c : BlockedCall) : (w.asked c).learnt = w.learnt := by
  unfold asked OutputWindow.blocked hold
  repeat' split
  all_goals rfl

theorem learnt_takeMarks (w : OutputWindow) (acknowledged : Int) (delivered now : Nat) :
    (w.takeMarks acknowledged delivered now).learnt = w.learnt := by
  unfold takeMarks sample
  dsimp only
  repeat' split
  all_goals rfl

end OutputWindow

namespace PeerLog.Explains
variable {l : PeerLog} {w : OutputWindow}

theorem of_learnt {w' : OutputWindow} (h : l.Explains w) (hsame : w'.learnt = w.learnt) : l.Explains w' := by
  simp only [OutputWindow.learnt, Prod.mk.injEq] at hsame
  obtain ⟨h₁, h₂, h₃, h₄⟩ := hsame
  exact ⟨h₁ ▸ h.here, h₂ ▸ h.carried, h₃ ▸ h.read, h₃ ▸ h₄ ▸ h.armed⟩

/-- Only an acknowledgement of a packet that carried one proves that the peer reads them. -/
theorem arm (h : l.Explains w) (acknowledged : Int) (unacknowledged : Nat) :
    { l with read := l.read || l.carried.any (· ≤ acknowledged) }.Explains (w.arm acknowledged unacknowledged) := by
  have hread : w.ackWritten.any (· ≤ acknowledged) = true → l.carried.any (· ≤ acknowledged) = true := by
    rw [Option.any_eq_true, any_eq_true]
    exact fun ⟨sequence, hwritten, hle⟩ => ⟨sequence, h.carried sequence hwritten, hle⟩
  unfold OutputWindow.arm
  dsimp only
  split
  next hany =>
    split <;> exact ⟨h.here, h.carried, fun _ => by simp [hread hany], fun _ => rfl⟩
  · split
    next harmed =>
      exact ⟨h.here, h.carried, fun hp => by simp [h.read hp], fun _ => (Bool.and_eq_true_iff.mp harmed).1⟩
    · exact { h with read := fun hp => by simp [h.read hp] }

theorem call (h : l.Explains w) (c : WindowCall) : (c.log l).Explains (c.window w) := by
  cases c with
  | write sequence length terminal carriesAck now =>
    refine Explains.of_learnt ?_ (w.learnt_onWrite sequence length terminal carriesAck now)
    cases carriesAck with
    | false => exact { h with }
    | true =>
      refine { h with carried := fun s hs => ?_ }
      cases hcarried : w.ackWritten with
      | none => simp_all [OutputWindow.count, WindowCall.log]
      | some first =>
        refine mem_cons_of_mem _ (h.carried s ?_)
        simpa [OutputWindow.count, hcarried] using hs
  | ack acknowledged unacknowledged now =>
    have htaken := h.of_learnt (w.learnt_takeMarks acknowledged (w.written - unacknowledged) now)
    refine PeerLog.Explains.arm (l := { l with acknowledged := true }) ?_ acknowledged unacknowledged
    split <;> exact { htaken with here := fun _ => rfl }
  | blocked c => exact h.of_learnt (w.learnt_asked c)
  | newTransport => exact ⟨nofun, nofun, h.read, h.armed⟩
  | seed rtt => exact h.of_learnt rfl

theorem calls (calls : List WindowCall) : (calls.foldl WindowCall.log {}).Explains (calls.foldl WindowCall.window {}) := by
  induction calls using List.reverseRecOn with
  | nil => exact ⟨nofun, nofun, nofun, nofun⟩
  | append_singleton calls c ih =>
    rw [foldl_append, foldl_append]
    exact ih.call c

end PeerLog.Explains

/-- **Output waits for a while only.**  Once a call blocks until `t`, and the calls in between are for the same
acknowledgement and see no smaller backlog, a call for it at or after `t` does not block, and no call does until more
is acknowledged.  A window whose peer acknowledged nothing on this transport, or none of the packets that carried an
acknowledgement to it, never blocks. -/
theorem output_waits_for_patience :
    (∀ (w : OutputWindow) (first c : BlockedCall) (t : Nat) (waiting : List BlockedCall), w.answer first = some t →
      (∀ b ∈ waiting, b.acknowledged = first.acknowledged ∧ first.unacknowledged ≤ b.unacknowledged) →
      c.acknowledged = first.acknowledged → t ≤ c.now →
      (waiting.foldl .asked (w.asked first)).answer c = none ∧
        (first.unacknowledged ≤ c.unacknowledged →
          ∀ (later : List BlockedCall) (b : BlockedCall), (∀ d ∈ b :: later, d.acknowledged ≤ first.acknowledged) →
            ((waiting ++ c :: later).foldl .asked (w.asked first)).answer b = none)) ∧
    ∀ (calls : List WindowCall) (c : BlockedCall),
      (calls.foldl WindowCall.log {}).acknowledged = false ∨ (calls.foldl WindowCall.log {}).read = false →
        (calls.foldl WindowCall.window {}).answer c = none := by
  constructor
  · intro w first c t waiting hfirst hwaiting hc ht
    have hw : (waiting.foldl .asked (w.asked first)).Waits first.acknowledged first.unacknowledged t :=
      (OutputWindow.waits_of_blocked hfirst).foldl hwaiting
    simp only [foldl_append, foldl_cons]
    generalize waiting.foldl .asked (w.asked first) = v at hw ⊢
    obtain ⟨a, u', now⟩ := c
    obtain rfl : a = first.acknowledged := hc
    refine ⟨hw.blocked_none ht u', fun hu later b hlater => ?_⟩
    obtain ⟨hnext, hrel⟩ := hw.blocked hu now
    obtain ⟨hb, hlater⟩ := forall_mem_cons.mp hlater
    have hstays : later.foldl .asked (v.asked ⟨first.acknowledged, u', now⟩) = v.asked ⟨first.acknowledged, u', now⟩ :=
      hnext.foldl_released (hrel ht).2 hlater
    rw [hstays]
    exact congrArg Prod.fst (hnext.blocked_of_released (hrel ht).2 hb _)
  · intro calls c hpeer
    obtain ⟨hhere, -, hread, harmed⟩ := PeerLog.Explains.calls calls
    have hoff : (calls.foldl WindowCall.window {}).armed = false ∨
        (calls.foldl WindowCall.window {}).acknowledgedHere = false := by
      rcases hpeer with hpeer | hpeer
      · exact .inr (Bool.eq_false_iff.mpr fun h => by simp [hhere h] at hpeer)
      · exact .inl (Bool.eq_false_iff.mpr fun h => by simp [hread (harmed h)] at hpeer)
    rw [OutputWindow.answer, OutputWindow.blocked, if_pos (by rcases hoff with h | h <;> simp [h])]

/-- A window of output after an acknowledgement that proved the peer reads them. -/
def armedWindow : OutputWindow :=
  [WindowCall.write 1 1 false true 0, .write 2 (2 ^ 21) true false 0, .ack 1 (2 ^ 21) 0].foldl WindowCall.window {}

theorem output_waits_for_patience_once : armedWindow.answer ⟨1, 2 ^ 21, 0⟩ = some outputPatience ∧
    ((armedWindow.asked ⟨1, 2 ^ 21, 0⟩).asked ⟨1, 2 ^ 21 + 1, 1⟩).answer ⟨1, 2 ^ 21, outputPatience⟩ = none :=
  have hfirst : armedWindow.answer ⟨1, 2 ^ 21, 0⟩ = some outputPatience := by decide +kernel
  ⟨hfirst, (output_waits_for_patience.1 _ _ ⟨1, 2 ^ 21, outputPatience⟩ _ [⟨1, 2 ^ 21 + 1, 1⟩] hfirst (by simp) rfl
    le_rfl).1⟩

/-- **A call for less in between starts the wait again.** -/
theorem smaller_acknowledgement_restarts : armedWindow.answer ⟨1, 2 ^ 21, 0⟩ = some outputPatience ∧
    ((armedWindow.asked ⟨1, 2 ^ 21, 0⟩).asked ⟨0, 2 ^ 21 + 1, 1⟩).answer ⟨1, 2 ^ 21, outputPatience⟩ =
      some (2 * outputPatience) := by
  decide +kernel

end EternalTerminal
