import Mathlib.Data.List.TakeWhile
import EternalTerminal.Core.Crypto
import EternalTerminal.Lib.History
import EternalTerminal.Lib.Machine

/-!
# Core — the output window

`OutputWindow`: the server holds terminal output back while a window of it is written and not acknowledged.  How much
terminal output an acknowledgement covers is known only from marks: some writes leave one, with the terminal payload
written through them, and an acknowledgement takes the marks at or below it.

A run (`WindowRun`) keeps beside the window what was really written, so that `terminalDelivered` can be compared with
the terminal payload through the largest sequence acknowledged (`WindowRun.Marked`).

Instants and durations are in nanoseconds.  The counters are `u64` and saturate; the product in a sample is `u128` and
wraps.
-/

namespace EternalTerminal
open Machine List

def ackIntervalBytes : Nat := 512 * 1024
def minPipeBytes : Nat := 512 * 1024
def pipeGain : Nat := 2
def maxWindowBytes : Nat := 16 * 1024 * 1024
/-- `PATIENCE`: ten seconds. -/
def outputPatience : Nat := 10 * 10 ^ 9
def packetOverhead : Int := 2 + macLen
def markSpacing : Nat := 16 * 1024
def marksPerWindow : Nat := 64
def maxMarks : Nat := 256
def pipeSamples : Nat := 8

/-- A timestamped write and the delivery state when it was written. -/
structure Mark where
  sequence : Int
  sent : Nat
  /-- Terminal payload written through this packet. -/
  terminal : Nat
  delivered : Nat
  deliveredAt : Nat
  firstSent : Nat
  deriving DecidableEq

/-- `output_window.rs`: the marks, the payload counters and the estimates of a transport. -/
structure OutputWindow where
  /-- Oldest first. -/
  marks : List Mark := []
  sinceMark : Nat := 0
  written : Nat := 0
  delivered : Nat := 0
  terminalWritten : Nat := 0
  terminalDelivered : Nat := 0
  deliveredAt : Option Nat := none
  deliveredSent : Option Nat := none
  minRtt : Option Nat := none
  pipe : List Nat := List.replicate pipeSamples 0
  nextPipe : Nat := 0
  ackWritten : Option Int := none
  peerReadsAcks : Bool := false
  armed : Bool := false
  acknowledgedHere : Bool := false
  stalled : Option (Int × Nat) := none
  released : Option Int := none
  deriving DecidableEq

namespace OutputWindow

def forNewTransport (w : OutputWindow) : OutputWindow where
  written := w.written
  delivered := w.delivered
  terminalWritten := w.terminalWritten
  terminalDelivered := w.terminalDelivered
  peerReadsAcks := w.peerReadsAcks
  armed := w.armed

def seedRoundTrip (w : OutputWindow) (rtt : Nat) : OutputWindow :=
  { w with minRtt := some (w.minRtt.elim rtt fun minRtt => min minRtt rtt) }

/-- The terminal payload that holds terminal output back. -/
def window (w : OutputWindow) : Nat :=
  let pipe := w.pipe.foldl max 0
  let pipe := max (saturatingMulU64 pipe pipeGain) minPipeBytes
  min (saturatingAddU64 ackIntervalBytes pipe) maxWindowBytes

/-- The counters of `on_write`. -/
def count (w : OutputWindow) (sequence : Int) (length : Nat) (terminal carriesAck : Bool) : OutputWindow :=
  { w with
    written := saturatingAddU64 w.written length
    terminalWritten := if terminal then saturatingAddU64 w.terminalWritten length else w.terminalWritten
    ackWritten := if carriesAck && w.ackWritten.isNone then some sequence else w.ackWritten }

/-- A write leaves a mark when there is none, or when enough payload followed the last one. -/
def mark (w : OutputWindow) (sequence : Int) (now : Nat) : OutputWindow :=
  let spacing := max (w.window / marksPerWindow) markSpacing
  if w.marks.isEmpty || spacing ≤ w.sinceMark then
    let marks := if w.marks.length = maxMarks then w.marks.tail else w.marks
    { w with
      marks := marks ++ [{
        sequence
        sent := now
        terminal := w.terminalWritten
        delivered := w.delivered
        deliveredAt := w.deliveredAt.getD now
        firstSent := w.deliveredSent.getD now }]
      sinceMark := 0 }
  else w

def onWrite (w : OutputWindow) (sequence : Int) (length : Nat) (terminal carriesAck : Bool) (now : Nat) :
    OutputWindow :=
  let w := w.count sequence length terminal carriesAck
  if !w.acknowledgedHere then w
  else
    let w := w.mark sequence now
    { w with sinceMark := saturatingAddU64 w.sinceMark length }

/-- The bandwidth-delay sample of the newest mark an acknowledgement covers. -/
def sample (w : OutputWindow) (mark : Mark) (delivered now : Nat) : OutputWindow :=
  match w.minRtt with
  | none => w
  | some seeded =>
    let minRtt := min seeded (now - mark.sent)
    let span := max (now - mark.deliveredAt) (mark.sent - mark.firstSent)
    let bytes := delivered - mark.delivered
    let w := { w with minRtt := some minRtt }
    if span ≠ 0 then
      { w with
        pipe := w.pipe.set w.nextPipe (min (bytes * minRtt % 2 ^ 128 / span) usizeMax)
        nextPipe := (w.nextPipe + 1) % pipeSamples }
    else w

def unacknowledgedTerminal (w : OutputWindow) (unacknowledged : Nat) : Nat :=
  min (w.terminalWritten - w.terminalDelivered) unacknowledged

/-- The marks at or below the acknowledgement are taken, and the newest of them counts. -/
def takeMarks (w : OutputWindow) (acknowledged : Int) (delivered now : Nat) : OutputWindow :=
  let newest := (w.marks.takeWhile fun mark => mark.sequence ≤ acknowledged).getLast?
  let w := { w with marks := w.marks.dropWhile fun mark => mark.sequence ≤ acknowledged }
  match newest with
  | none => w
  | some mark =>
    let w := w.sample mark delivered now
    { w with
      terminalDelivered := max w.terminalDelivered mark.terminal
      deliveredSent := some mark.sent }

/-- The client is proven to acknowledge by volume once it read an acknowledgement of this side and left a whole window
unacknowledged. -/
def arm (w : OutputWindow) (acknowledged : Int) (unacknowledged : Nat) : OutputWindow :=
  let w := if w.ackWritten.any (· ≤ acknowledged) then { w with peerReadsAcks := true } else w
  if w.peerReadsAcks && w.window ≤ w.unacknowledgedTerminal unacknowledged then { w with armed := true } else w

def onAck (w : OutputWindow) (acknowledged : Int) (unacknowledged now : Nat) : OutputWindow :=
  let delivered := w.written - unacknowledged
  let w := w.takeMarks acknowledged delivered now
  let w :=
    if w.delivered < delivered ∨ w.deliveredAt = none then
      { w with delivered := max w.delivered delivered, deliveredAt := some now }
    else w
  { w with acknowledgedHere := true }.arm acknowledged unacknowledged

/-- The rest of `blocked`, for a window that is not released. -/
def hold (w : OutputWindow) (acknowledged : Int) (unacknowledged now : Nat) : Option Nat × OutputWindow :=
  if w.unacknowledgedTerminal unacknowledged < w.window then (none, { w with stalled := none })
  else
    match w.stalled with
    | some (seen, since) =>
      if seen = acknowledged then
        if outputPatience ≤ now - since then
          (none, { w with released := some acknowledged, stalled := none })
        else (some (since + outputPatience), w)
      else (some (now + outputPatience), { w with stalled := some (acknowledged, now) })
    | none => (some (now + outputPatience), { w with stalled := some (acknowledged, now) })

/-- Whether terminal output has to wait, and until when. -/
def blocked (w : OutputWindow) (acknowledged : Int) (unacknowledged now : Nat) : Option Nat × OutputWindow :=
  if !w.armed || !w.acknowledgedHere then (none, { w with stalled := none })
  else
    match w.released with
    | some released =>
      if acknowledged ≤ released then (none, w)
      else { w with released := none }.hold acknowledged unacknowledged now
    | none => w.hold acknowledged unacknowledged now

end OutputWindow

/-- Payload bytes behind a writer's delivery backlog. -/
def unacknowledgedPayload (acknowledged unacknowledgedWire sequence : Int) : Nat :=
  let packets := max (saturatingSub sequence acknowledged) 0
  let payload := saturatingSub unacknowledgedWire (saturatingMul packets packetOverhead)
  (usizeOfI64 payload).getD 0

/-! ### Runs -/

/-- A packet that was written. -/
structure WindowWrite where
  sequence : Int
  length : Nat
  terminal : Bool
  deriving DecidableEq

/-- The payload of the packets that satisfy `p`. -/
def payloadOf (p : WindowWrite → Bool) (writes : List WindowWrite) : Nat :=
  ((writes.filter p).map (·.length)).sum

theorem payloadOf_append (p : WindowWrite → Bool) (l₁ l₂ : List WindowWrite) :
    payloadOf p (l₁ ++ l₂) = payloadOf p l₁ + payloadOf p l₂ := by
  simp [payloadOf]

theorem payloadOf_singleton (p : WindowWrite → Bool) (write : WindowWrite) :
    payloadOf p [write] = if p write then write.length else 0 := by
  unfold payloadOf
  cases h : p write <;> simp [h]

theorem payloadOf_mono {p q : WindowWrite → Bool} {writes : List WindowWrite}
    (h : ∀ write ∈ writes, p write = true → q write = true) : payloadOf p writes ≤ payloadOf q writes := by
  induction writes with
  | nil => exact Nat.le_refl _
  | cons write writes ih =>
    have hrest := ih fun w hw => h w (mem_cons_of_mem _ hw)
    rw [← singleton_append, payloadOf_append, payloadOf_append, payloadOf_singleton, payloadOf_singleton]
    split
    next hp =>
      rw [if_pos (h write mem_cons_self hp)]
      omega
    · omega

theorem payloadOf_split (p q : WindowWrite → Bool) (writes : List WindowWrite) :
    payloadOf (fun w => p w && q w) writes + payloadOf (fun w => p w && !q w) writes = payloadOf p writes := by
  induction writes with
  | nil => rfl
  | cons write writes ih =>
    rw [← singleton_append]
    simp only [payloadOf_append, payloadOf_singleton]
    cases p write <;> cases q write <;> simp <;> omega

/-- A window with what was really written. -/
structure WindowRun where
  window : OutputWindow
  /-- The packets written, oldest first. -/
  writes : List WindowWrite
  /-- The sequence of the last of them. -/
  last : Int
  /-- The largest sequence acknowledged so far. -/
  acked : Option Int

namespace WindowRun

def start (last : Int) : WindowRun := ⟨{}, [], last, none⟩

/-- The payload written after `acknowledged`. -/
def outstanding (s : WindowRun) (acknowledged : Int) : Nat :=
  payloadOf (fun write => !decide (write.sequence ≤ acknowledged)) s.writes

def terminalTotal (s : WindowRun) : Nat := payloadOf (·.terminal) s.writes

/-- The terminal payload written through `sequence`. -/
def terminalThrough (s : WindowRun) (sequence : Int) : Nat :=
  payloadOf (fun write => write.terminal && decide (write.sequence ≤ sequence)) s.writes

/-- The terminal payload written through the largest sequence acknowledged, and the terminal payload after it. -/
def terminalAcknowledged (s : WindowRun) : Nat := s.acked.elim 0 s.terminalThrough

def terminalOutstanding (s : WindowRun) : Nat :=
  s.acked.elim s.terminalTotal fun acked =>
    payloadOf (fun write => write.terminal && !decide (write.sequence ≤ acked)) s.writes

end WindowRun

/-- A call on the window. -/
inductive WindowEvent where
  | write (sequence : Int) (length : Nat) (terminal carriesAck : Bool) (now : Nat)
  | ack (acknowledged : Int) (now : Nat)
  | blocked (acknowledged : Int) (now : Nat)
  | newTransport
  | seed (rtt : Nat)
  deriving DecidableEq

/-- A call that is not possible gives `none`: sequences increase, and what is acknowledged was written.  The payload
that is passed on is the exact one, so it has to be a `u64`. -/
def WindowRun.apply (s : WindowRun) : WindowEvent → Option WindowRun
  | .write sequence length terminal carriesAck now =>
    if s.last < sequence then
      some { s with
        window := s.window.onWrite sequence length terminal carriesAck now
        writes := s.writes ++ [⟨sequence, length, terminal⟩]
        last := sequence }
    else none
  | .ack acknowledged now =>
    if acknowledged ≤ s.last ∧ s.outstanding acknowledged ≤ usizeMax then
      some { s with
        window := s.window.onAck acknowledged (s.outstanding acknowledged) now
        acked := some (s.acked.elim acknowledged (max acknowledged)) }
    else none
  | .blocked acknowledged now =>
    if acknowledged ≤ s.last ∧ s.outstanding acknowledged ≤ usizeMax then
      some { s with window := (s.window.blocked acknowledged (s.outstanding acknowledged) now).2 }
    else none
  | .newTransport => some { s with window := s.window.forNewTransport }
  | .seed rtt => some { s with window := s.window.seedRoundTrip rtt }

/-- One call that is possible. -/
inductive WindowStep : WindowRun → WindowRun → Prop where
  | step (s : WindowRun) (e : WindowEvent) (s' : WindowRun) (h : s.apply e = some s') : WindowStep s s'

/-! ### What the calls do to the marks -/

namespace OutputWindow
variable {w : OutputWindow} {acknowledged : Int} {unacknowledged now : Nat}

/-- What the bound rests on, which most steps do not touch. -/
def account (w : OutputWindow) : List Mark × Nat × Nat := (w.marks, w.terminalWritten, w.terminalDelivered)

/-- A write leaves its own mark, with all terminal payload so far, or none. -/
theorem onWrite_account (w : OutputWindow) (sequence : Int) (length : Nat) (terminal carriesAck : Bool) (now : Nat) :
    let w' := w.onWrite sequence length terminal carriesAck now
    w'.terminalWritten = (if terminal then saturatingAddU64 w.terminalWritten length else w.terminalWritten) ∧
      w'.terminalDelivered = w.terminalDelivered ∧
      ∀ mark ∈ w'.marks, mark ∈ w.marks ∨ mark.sequence = sequence ∧ mark.terminal = w'.terminalWritten := by
  intro w'
  have hcnt : (w.count sequence length terminal carriesAck).marks = w.marks := rfl
  have hmark : ∀ v : OutputWindow, (v.mark sequence now).terminalWritten = v.terminalWritten ∧
      (v.mark sequence now).terminalDelivered = v.terminalDelivered ∧
      ∀ mark ∈ (v.mark sequence now).marks,
        mark ∈ v.marks ∨ mark.sequence = sequence ∧ mark.terminal = v.terminalWritten := by
    intro v
    unfold mark
    dsimp only
    split
    · refine ⟨rfl, rfl, fun mark hmark => ?_⟩
      rcases mem_append.mp hmark with hold | hnew
      · split at hold
        · exact .inl (mem_of_mem_tail hold)
        · exact .inl hold
      · cases mem_singleton.mp hnew
        exact .inr ⟨rfl, rfl⟩
    · exact ⟨rfl, rfl, fun mark hmark => .inl hmark⟩
  obtain ⟨hwr, hdel, hmarks⟩ := hmark (w.count sequence length terminal carriesAck)
  have hw' : w' = w.onWrite sequence length terminal carriesAck now := rfl
  unfold onWrite at hw'
  dsimp only at hw'
  split at hw'
  · rw [hw']
    exact ⟨rfl, rfl, fun mark hmark => .inl hmark⟩
  rw [hw']
  refine ⟨hwr, hdel, fun mark hmark => ?_⟩
  dsimp only at hmark ⊢
  rw [hwr]
  exact hmarks mark hmark

theorem sample_account (w : OutputWindow) (mark : Mark) (delivered now : Nat) :
    (w.sample mark delivered now).account = w.account := by
  unfold sample
  split
  · rfl
  · dsimp only
    split <;> rfl

theorem arm_account : (w.arm acknowledged unacknowledged).account = w.account := by
  unfold arm
  dsimp only
  split <;> split <;> rfl

/-- An acknowledgement counts a mark at or below it, and keeps marks only. -/
theorem takeMarks_account (delivered : Nat) :
    let w' := w.takeMarks acknowledged delivered now
    w'.terminalWritten = w.terminalWritten ∧ (∀ mark ∈ w'.marks, mark ∈ w.marks) ∧
      (w'.terminalDelivered = w.terminalDelivered ∨
        ∃ mark ∈ w.marks, mark.sequence ≤ acknowledged ∧
          w'.terminalDelivered = max w.terminalDelivered mark.terminal) := by
  have hrest : ∀ mark ∈ w.marks.dropWhile fun mark => mark.sequence ≤ acknowledged, mark ∈ w.marks :=
    fun mark hmark => (dropWhile_sublist _).subset hmark
  unfold takeMarks
  dsimp only
  split
  · exact ⟨rfl, hrest, .inl rfl⟩
  rename_i mark hnewest
  have hmem := List.mem_of_getLast? hnewest
  have hsample := sample_account
    { w with marks := w.marks.dropWhile fun mark => mark.sequence ≤ acknowledged } mark delivered now
  simp only [account, Prod.mk.injEq] at hsample
  obtain ⟨hmarks, hwr, hdel⟩ := hsample
  refine ⟨hwr, by rwa [hmarks], .inr ⟨mark, (takeWhile_sublist _).subset hmem, ?_, by rw [hdel]⟩⟩
  simpa using mem_takeWhile_imp hmem

theorem onAck_account (w : OutputWindow) (acknowledged : Int) (unacknowledged now : Nat) :
    let w' := w.onAck acknowledged unacknowledged now
    w'.terminalWritten = w.terminalWritten ∧ (∀ mark ∈ w'.marks, mark ∈ w.marks) ∧
      (w'.terminalDelivered = w.terminalDelivered ∨
        ∃ mark ∈ w.marks, mark.sequence ≤ acknowledged ∧
          w'.terminalDelivered = max w.terminalDelivered mark.terminal) := by
  intro w'
  have hsame : w'.account = (w.takeMarks acknowledged (w.written - unacknowledged) now).account := by
    show (arm _ _ _).account = _
    rw [arm_account]
    split <;> rfl
  simp only [account, Prod.mk.injEq] at hsame
  rw [hsame.1, hsame.2.1, hsame.2.2]
  exact takeMarks_account _

theorem hold_account : (w.hold acknowledged unacknowledged now).2.account = w.account := by
  unfold hold
  split
  · rfl
  split
  · split
    · split <;> rfl
    · rfl
  · rfl

theorem blocked_account : (w.blocked acknowledged unacknowledged now).2.account = w.account := by
  unfold blocked
  split
  · rfl
  split
  · split
    · rfl
    · exact hold_account
  · exact hold_account

/-- An armed window that lets output go without being released has less than a window of it unacknowledged. -/
theorem hold_none (h : (w.hold acknowledged unacknowledged now).1 = none)
    (hrel : (w.hold acknowledged unacknowledged now).2.released = none) :
    w.unacknowledgedTerminal unacknowledged < w.window := by
  unfold hold at h hrel
  split at h
  · assumption
  exfalso
  rename_i hover
  rw [if_neg hover] at hrel
  split at h
  · split at h
    · split at h
      · simp_all
      · cases h
    · cases h
  · cases h

theorem blocked_none (harmed : w.armed = true) (hhere : w.acknowledgedHere = true)
    (h : (w.blocked acknowledged unacknowledged now).1 = none)
    (hrel : (w.blocked acknowledged unacknowledged now).2.released = none) :
    w.unacknowledgedTerminal unacknowledged < w.window := by
  have hon : ¬ (!w.armed || !w.acknowledgedHere) = true := by simp [harmed, hhere]
  rw [blocked, if_neg hon] at h hrel
  split at h
  next released hsome =>
    rw [hsome] at hrel
    dsimp only at hrel
    split at h
    next hbelow =>
      rw [if_pos hbelow, hsome] at hrel
      cases hrel
    rename_i habove
    rw [if_neg habove] at hrel
    have hlt := hold_none h hrel
    exact hlt
  next hnone =>
    rw [hnone] at hrel
    exact hold_none h hrel

/-- Output goes while less than a window is unacknowledged. -/
theorem blocked_of_lt (hlt : unacknowledged < w.window) : (w.blocked acknowledged unacknowledged now).1 = none := by
  have hhold : ∀ v : OutputWindow, v.window = w.window → (v.hold acknowledged unacknowledged now).1 = none := by
    intro v hv
    rw [hold, if_pos]
    exact Nat.lt_of_le_of_lt (Nat.min_le_right _ _) (hv ▸ hlt)
  unfold blocked
  split
  · rfl
  split
  · split
    · rfl
    · exact hhold _ rfl
  · exact hhold _ rfl

end OutputWindow

/-! ### The invariant -/

/-- No mark has more terminal payload than was written through its packet, and no more counts as delivered than was
written through the largest sequence acknowledged. -/
structure WindowRun.Marked (s : WindowRun) : Prop where
  last : ∀ write ∈ s.writes, write.sequence ≤ s.last
  written : s.window.terminalWritten = min s.terminalTotal usizeMax
  marks : ∀ mark ∈ s.window.marks, mark.terminal ≤ s.terminalThrough mark.sequence
  delivered : s.window.terminalDelivered ≤ s.terminalAcknowledged

namespace WindowRun
variable {s s' : WindowRun}

theorem terminalThrough_mono {a b : Int} (h : a ≤ b) : s.terminalThrough a ≤ s.terminalThrough b := by
  refine payloadOf_mono fun write _ hwr => ?_
  simp only [Bool.and_eq_true, decide_eq_true_eq] at hwr ⊢
  exact ⟨hwr.1, hwr.2.trans h⟩

theorem terminalThrough_last (h : ∀ write ∈ s.writes, write.sequence ≤ s.last) :
    s.terminalThrough s.last = s.terminalTotal := by
  refine Nat.le_antisymm (payloadOf_mono fun write _ hwr => ?_) (payloadOf_mono fun write hmem hwr => ?_)
  · simp only [Bool.and_eq_true] at hwr
    exact hwr.1
  · simpa [hwr] using h write hmem

theorem terminalTotal_eq : s.terminalTotal = s.terminalAcknowledged + s.terminalOutstanding := by
  unfold terminalAcknowledged terminalOutstanding
  cases s.acked with
  | none => exact (Nat.zero_add _).symm
  | some acked => exact (payloadOf_split _ _ _).symm

/-- Steps that leave the account alone. -/
theorem Marked.same (h : s.Marked) {window : OutputWindow} (hacc : window.account = s.window.account) :
    Marked { s with window := window } := by
  simp only [OutputWindow.account, Prod.mk.injEq] at hacc
  refine ⟨h.last, hacc.2.1.trans h.written, fun mark hmark => ?_, hacc.2.2.le.trans h.delivered⟩
  exact h.marks mark (hacc.1 ▸ hmark)

theorem Marked.written_step (h : s.Marked) {sequence : Int} {length now : Nat} {terminal carriesAck : Bool}
    (hlast : s.last < sequence) :
    Marked { s with
      window := s.window.onWrite sequence length terminal carriesAck now
      writes := s.writes ++ [⟨sequence, length, terminal⟩]
      last := sequence } := by
  obtain ⟨hwr, hdel, hmarks⟩ := s.window.onWrite_account sequence length terminal carriesAck now
  generalize s.window.onWrite sequence length terminal carriesAck now = window at hwr hdel hmarks
  have hgrow : ∀ p : WindowWrite → Bool,
      payloadOf p s.writes ≤ payloadOf p (s.writes ++ [⟨sequence, length, terminal⟩]) := by
    intro p
    rw [payloadOf_append]
    exact Nat.le_add_right _ _
  have hlast' : ∀ write ∈ s.writes ++ [⟨sequence, length, terminal⟩], write.sequence ≤ sequence :=
    forall_mem_append.mpr ⟨fun write hold => (h.last write hold).trans hlast.le, forall_mem_singleton.mpr le_rfl⟩
  have htot : window.terminalWritten =
      min (payloadOf (·.terminal) (s.writes ++ [⟨sequence, length, terminal⟩])) usizeMax := by
    have hold := h.written
    rw [terminalTotal] at hold
    rw [hwr, payloadOf_append, payloadOf_singleton, hold, saturatingAddU64]
    cases terminal
    · simp
    · simp only [if_true]
      omega
  refine ⟨hlast', htot, fun mark hmark => ?_, ?_⟩
  · rcases hmarks mark hmark with hold | ⟨hsequence, hterm⟩
    · exact (h.marks mark hold).trans (hgrow _)
    · -- the new mark has all terminal payload so far, and all of it is at or below its sequence
      rw [hterm, hsequence, htot]
      refine (Nat.min_le_left _ _).trans (Nat.le_of_eq ?_)
      exact (terminalThrough_last (s := { s with
        writes := s.writes ++ [⟨sequence, length, terminal⟩], last := sequence }) hlast').symm
  · refine hdel.le.trans (h.delivered.trans ?_)
    unfold terminalAcknowledged
    cases s.acked with
    | none => exact Nat.le_refl 0
    | some acked => exact hgrow _

theorem Marked.acked_step (h : s.Marked) {acknowledged : Int} {unacknowledged now : Nat} :
    Marked { s with
      window := s.window.onAck acknowledged unacknowledged now
      acked := some (s.acked.elim acknowledged (max acknowledged)) } := by
  obtain ⟨hwr, hmarks, hdel⟩ :=
    s.window.onAck_account acknowledged unacknowledged now
  generalize s.window.onAck acknowledged unacknowledged now = window at hwr hmarks hdel
  have hlargest : acknowledged ≤ s.acked.elim acknowledged (max acknowledged) := by
    cases s.acked with
    | none => exact le_rfl
    | some acked => exact le_max_left _ _
  have hkept : s.terminalAcknowledged ≤ s.terminalThrough (s.acked.elim acknowledged (max acknowledged)) := by
    unfold terminalAcknowledged
    cases s.acked with
    | none => exact Nat.zero_le _
    | some acked => exact terminalThrough_mono (le_max_right _ _)
  refine ⟨h.last, hwr.trans h.written, fun mark hmark => h.marks mark (hmarks mark hmark), ?_⟩
  rcases hdel with hsame | ⟨mark, hmark, hbelow, hmax⟩
  · exact hsame.le.trans (h.delivered.trans hkept)
  · refine hmax.le.trans (Nat.max_le.mpr ⟨h.delivered.trans hkept, ?_⟩)
    exact (h.marks mark hmark).trans (terminalThrough_mono (hbelow.trans hlargest))

theorem Marked.apply (h : s.Marked) {e : WindowEvent} (he : s.apply e = some s') : s'.Marked := by
  cases e with
  | write sequence length terminal carriesAck now =>
    obtain ⟨hlast, rfl⟩ := Option.ite_some_none_eq_some.mp he
    exact h.written_step hlast
  | ack acknowledged now =>
    obtain ⟨-, rfl⟩ := Option.ite_some_none_eq_some.mp he
    exact h.acked_step
  | blocked acknowledged now =>
    obtain ⟨-, rfl⟩ := Option.ite_some_none_eq_some.mp he
    exact h.same OutputWindow.blocked_account
  | newTransport =>
    cases he
    exact { h with marks := fun mark hmark => (nomatch hmark) }
  | seed rtt =>
    cases he
    exact h.same rfl

theorem Marked.of_reach {last : Int} (hrun : Relation.ReflTransGen WindowStep (.start last) s) : s.Marked :=
  reach_invariant (P := Marked) hrun ⟨nofun, rfl, nofun, Nat.le_refl 0⟩ fun _ _ h hstep => by
    obtain ⟨e, _, he⟩ := hstep
    exact h.apply he

end WindowRun

/-- **What the window counts as delivered was acknowledged.**  In every run no more terminal payload is counted as
delivered than was written through the largest sequence acknowledged.  So, while the terminal payload fits its
counter, an armed window that is not released lets terminal output go only when less than a window of it, or of any
payload, is outstanding.  And it never holds output back while less than a window is outstanding. -/
theorem output_window_bound {last : Int} {s : WindowRun} (hrun : Relation.ReflTransGen WindowStep (.start last) s) :
    s.window.terminalDelivered ≤ s.terminalAcknowledged ∧
    ∀ acknowledged now, acknowledged ≤ s.last → s.outstanding acknowledged ≤ usizeMax →
      let call := s.window.blocked acknowledged (s.outstanding acknowledged) now
      (s.terminalTotal ≤ usizeMax → s.window.armed = true → s.window.acknowledgedHere = true → call.1 = none →
        call.2.released = none →
        s.terminalOutstanding < s.window.window ∨ s.outstanding acknowledged < s.window.window) ∧
      (s.outstanding acknowledged < s.window.window → call.1 = none) := by
  have h := WindowRun.Marked.of_reach hrun
  refine ⟨h.delivered, fun acknowledged now _ _ => ⟨fun hfits harmed hhere hnone hreleased => ?_, fun hlt => ?_⟩⟩
  · have hlt := OutputWindow.blocked_none harmed hhere hnone hreleased
    have hwritten := h.written
    have hdelivered := h.delivered
    have htotal := s.terminalTotal_eq
    rw [OutputWindow.unacknowledgedTerminal, hwritten] at hlt
    rcases Nat.lt_or_ge (s.outstanding acknowledged) s.window.window with hall | hall
    · exact .inr hall
    · left
      omega
  · exact OutputWindow.blocked_of_lt hlt

def windowAfter (es : List WindowEvent) : WindowRun :=
  (execEvents WindowRun.apply (.start 0) es).getD (.start 0)

theorem window_reach (es : List WindowEvent) (h : (execEvents WindowRun.apply (.start 0) es).isSome) :
    Relation.ReflTransGen WindowStep (.start 0) (windowAfter es) :=
  reach_getD .step es h

/-- A client that reads an acknowledgement and leaves two packets of `length` bytes unacknowledged, then reads one. -/
def armingEvents (length : Nat) : List WindowEvent :=
  [.seed 1000, .write 1 8 false true 0, .ack 1 1000, .write 2 length true false 2000, .write 3 length true false 3000,
    .ack 1 4000, .ack 2 5000]

theorem output_window_bound_armed :
    let s := windowAfter (armingEvents (2 ^ 20))
    (s.window.armed = true ∧ s.window.terminalDelivered = 2 ^ 20 ∧ s.terminalOutstanding = 2 ^ 20) ∧
      s.window.terminalDelivered ≤ s.terminalAcknowledged :=
  ⟨by decide +kernel, (output_window_bound (window_reach _ (by decide +kernel))).1⟩

/-- **A counter that is full counts nothing more**: with `2 ^ 64` bytes of terminal output delivered, the window lets
output go while `2 ^ 63` bytes of it are outstanding. -/
theorem saturated_window_open :
    ∃ s, Relation.ReflTransGen WindowStep (.start 0) s ∧ s.window.armed = true ∧ s.window.acknowledgedHere = true ∧
      s.last = 4 ∧ s.outstanding 3 = 2 ^ 63 ∧ s.terminalOutstanding = 2 ^ 63 ∧ s.window.window < 2 ^ 63 ∧
      (s.window.blocked 3 (s.outstanding 3) 7000).1 = none ∧
      (s.window.blocked 3 (s.outstanding 3) 7000).2.released = none :=
  let events := [.write 1 8 false true 0, .ack 1 1000, .write 2 (2 ^ 63) true false 2000, .ack 1 3000, .ack 2 4000,
    .write 3 (2 ^ 63) true false 5000, .ack 3 6000, .write 4 (2 ^ 63) true false 7000]
  ⟨windowAfter events, window_reach events (by decide +kernel), by decide +kernel⟩

end EternalTerminal
