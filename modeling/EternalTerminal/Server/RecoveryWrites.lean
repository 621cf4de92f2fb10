import EternalTerminal.Core.Packet
import EternalTerminal.Core.WriterHistory

/-!
# Server — what recoveries put on the wire

A recovery works on a copy of the session's writer, nonce counter included, and the copy seals a
keep-alive on the new transport before it is known whether the copy or the original survives.  The
system below is the writer side of `recover_body_with`: the live writer, at most one candidate with
its phase, and every sealed packet any transport ever got a byte of.

Main results: `no_nonce_reused`, `nonce_reused`.
-/

namespace EternalTerminal
open Machine BackedWriter List CryptoHandler

/-! ### Sealed packets -/

/-- A packet as a writer sealed it. -/
structure Sealed where
  key : Key
  nonce : Nonce
  sequence : Int
  header : UInt8
  payload : Bytes

/-- The bytes of the sealed packet. -/
def Sealed.frame (S : Sodium) (a : Sealed) : Bytes :=
  encryptDetached S (Bytes.beBytes 4 (2 + a.payload.length + macLen) ++ [1, a.header])
    a.payload a.nonce a.key

/-- The nonce is the counter of the server's direction after as many steps as the sequence says. -/
def Sealed.Counted (a : Sealed) : Prop :=
  0 ≤ a.sequence ∧ a.sequence ≤ i64Max ∧
    a.nonce = ((CryptoHandler.new a.key dirServerToClient).advance a.sequence.toNat).nonce

/-- A writer, and what it has sealed since it was made or reset. -/
structure Tracked where
  writer : BackedWriter
  history : List Sealed

namespace Tracked

def key (t : Tracked) : Key := t.writer.crypto.baseKey

/-- `write_packet`: one more record when the writer takes the packet. -/
def write (S : Sodium) (t : Tracked) (header : UInt8) (payload : Bytes) : WriterOutcome × Tracked :=
  match t.writer.writePacket S header payload with
  | (.skipped, writer) => (.skipped, { t with writer := writer })
  | (outcome, writer) =>
    let record := ⟨writer.crypto.baseKey, writer.crypto.nonce, writer.sequence, header, payload⟩
    (outcome, ⟨writer, t.history ++ [record]⟩)

def disconnect (t : Tracked) : Tracked := { t with writer := t.writer.invalidate }

/-- What a transport gets that takes `sentBytes` bytes of the newest frame. -/
def newest (t : Tracked) (sentBytes : Nat) : List Sealed :=
  if sentBytes = 0 then [] else t.history.getLast?.toList

end Tracked

/-! ### The system -/

/-- How far a recovery is. -/
inductive WritesPhase where
  | taken
  | served
  | revived
  | announced
  deriving DecidableEq

/-- A recovery under way. -/
structure WritesCandidate where
  tracked : Tracked
  phase : WritesPhase

/-- The writer side of an `ActiveSession`.  `wire` has every packet of which some transport got at
least one byte. -/
structure SessionWrites where
  live : Tracked
  candidate : Option WritesCandidate
  wire : List Sealed

/-- A step of the live writer or of a recovery. -/
inductive WritesEvent where
  | liveWrite (header : UInt8) (payload : Bytes) (sentBytes : Nat)
  /-- A frame that waits for transport room goes out. -/
  | livePending
  | liveAcknowledge (acknowledged : Int)
  | liveDisconnect
  | snapshot
  /-- The peer asks for what follows `remoteSequence`; the transport takes `count` frames of it. -/
  | sendCatchup (remoteSequence : Int) (count : Nat)
  | revive
  | reset (salt : Bytes)
  | keepAlive (ack : Bytes) (sentBytes : Nat)
  | install
  /-- The recovery returns an error, at whatever phase it is. -/
  | fail

namespace SessionWrites

def new (key : Key) : SessionWrites where
  live := ⟨BackedWriter.new (CryptoHandler.new key dirServerToClient) true, []⟩
  candidate := none
  wire := []

variable (S : Sodium)

/-- A packet on the session's own connection; a send that stops short disconnects it. -/
def liveWrite (s : SessionWrites) (header : UInt8) (payload : Bytes) (sentBytes : Nat) :
    SessionWrites :=
  match s.live.write S header payload with
  | (.send frame, live) =>
    -- after part of a frame nothing else can follow on the transport
    { s with
      live := if sentBytes < frame.length then live.disconnect else live
      wire := s.wire ++ live.newest sentBytes }
  | (_, live) => { s with live := live }

/-- The first phase of a recovery; the permit keeps it to one at a time. -/
def snapshot (s : SessionWrites) : SessionWrites :=
  match s.candidate with
  | some _ => s
  | none => { s with candidate := some ⟨s.live.disconnect, .taken⟩ }

/-- The catchup of the exchange. -/
def sendCatchup (s : SessionWrites) (remoteSequence : Int) (count : Nat) : SessionWrites :=
  match s.candidate with
  | some ⟨tracked, .taken⟩ =>
    match tracked.writer.recover remoteSequence with
    | .error _ => { s with candidate := none }
    | .ok _ =>
      { s with
        candidate := some ⟨tracked, .served⟩
        wire := s.wire ++ (tracked.history.drop remoteSequence.toNat).take count }
  | _ => s

def revive (s : SessionWrites) : SessionWrites :=
  match s.candidate with
  | some ⟨tracked, .served⟩ =>
    { s with candidate := some ⟨{ tracked with writer := tracked.writer.revive }, .revived⟩ }
  | _ => s

/-- An exchange with a salt: no history is served, and the copy is rekeyed. -/
def reset (s : SessionWrites) (salt : Bytes) : SessionWrites :=
  match s.candidate with
  | some ⟨tracked, .taken⟩ =>
    match tracked.writer.reset S salt with
    | .error _ => { s with candidate := none }
    | .ok writer => { s with candidate := some ⟨⟨writer.revive, []⟩, .revived⟩ }
  | _ => s

/-- `write_packet_live` of the first keep-alive on the new transport: the recovery fails unless the
transport takes all of it. -/
def announce (s : SessionWrites) (ack : Bytes) (sentBytes : Nat) : SessionWrites :=
  match s.candidate with
  | some ⟨tracked, .revived⟩ =>
    match tracked.write S keepAlive ack with
    | (.send frame, tracked) =>
      -- what went out stays out, whatever becomes of the candidate
      { s with
        candidate := if sentBytes < frame.length then none else some ⟨tracked, .announced⟩
        wire := s.wire ++ tracked.newest sentBytes }
    | _ => { s with candidate := none }
  | _ => s

def install (s : SessionWrites) : SessionWrites :=
  match s.candidate with
  | some ⟨tracked, .announced⟩ => { s with live := tracked, candidate := none }
  | _ => s

def apply (s : SessionWrites) : WritesEvent → SessionWrites
  | .liveWrite header payload sentBytes => s.liveWrite S header payload sentBytes
  | .livePending => { s with wire := s.wire ++ s.live.newest 1 }
  | .liveAcknowledge acknowledged =>
    { s with live := { s.live with writer := s.live.writer.acknowledge acknowledged } }
  | .liveDisconnect => { s with live := s.live.disconnect }
  | .snapshot => s.snapshot
  | .sendCatchup remoteSequence count => s.sendCatchup remoteSequence count
  | .revive => s.revive
  | .reset salt => s.reset S salt
  | .keepAlive ack sentBytes => s.announce S ack sentBytes
  | .install => s.install
  | .fail => { s with candidate := none }

end SessionWrites

/-- One allowed step.  Sequences are `i64`. -/
inductive WritesStep (S : Sodium) (allowed : SessionWrites → WritesEvent → Prop) :
    SessionWrites → SessionWrites → Prop where
  | step (s : SessionWrites) (e : WritesEvent) (hlive : s.live.writer.sequence < i64Max)
      (hcandidate : ∀ c ∈ s.candidate, c.tracked.writer.sequence < i64Max) (h : allowed s e) :
      WritesStep S allowed s (s.apply S e)

/-- No candidate of the live key has sent its keep-alive. -/
def SessionWrites.Unannounced (s : SessionWrites) : Prop :=
  ∀ c ∈ s.candidate, c.phase = .announced → c.tracked.key ≠ s.live.key

instance (s : SessionWrites) : Decidable s.Unannounced :=
  inferInstanceAs (Decidable (∀ c ∈ s.candidate, c.phase = .announced → c.tracked.key ≠ s.live.key))

/-- Nothing was sealed under the key of this handler. -/
def SessionWrites.NewKey (s : SessionWrites) : Except ProofError CryptoHandler → Prop
  | .error _ => True
  | .ok crypto => crypto.baseKey ≠ s.live.key ∧ ∀ a ∈ s.wire, a.key ≠ crypto.baseKey

instance (s : SessionWrites) : ∀ r, Decidable (s.NewKey r)
  | .error _ => inferInstanceAs (Decidable True)
  | .ok crypto =>
    inferInstanceAs (Decidable (crypto.baseKey ≠ s.live.key ∧ ∀ a ∈ s.wire, a.key ≠ crypto.baseKey))

/-- A keep-alive under the live key follows a snapshot the live writer has not moved from, and is sent
whole or not at all; while it is out nothing but the install follows on the live writer; a reset derives
a new key. -/
def KeepsNonces (S : Sodium) (s : SessionWrites) : WritesEvent → Prop
  | .liveWrite _ _ _ | .fail => s.Unannounced
  | .keepAlive ack sentBytes =>
    ∀ c ∈ s.candidate, c.tracked.key = s.live.key → sentBytes = 0 ∨
      c.tracked.writer.sequence = s.live.writer.sequence ∧
        4 + (2 + ack.length + macLen) ≤ sentBytes
  | .reset salt => ∀ c ∈ s.candidate, s.NewKey (c.tracked.writer.crypto.rekey S salt)
  | _ => True

instance (S : Sodium) (s : SessionWrites) : ∀ e, Decidable (KeepsNonces S s e)
  | .liveWrite _ _ _ | .fail => inferInstanceAs (Decidable s.Unannounced)
  | .keepAlive ack sentBytes =>
    inferInstanceAs (Decidable (∀ c ∈ s.candidate, c.tracked.key = s.live.key → sentBytes = 0 ∨
      c.tracked.writer.sequence = s.live.writer.sequence ∧
        4 + (2 + ack.length + macLen) ≤ sentBytes))
  | .reset salt =>
    inferInstanceAs (Decidable (∀ c ∈ s.candidate, s.NewKey (c.tracked.writer.crypto.rekey S salt)))
  | .livePending | .liveAcknowledge _ | .liveDisconnect | .snapshot | .sendCatchup _ _ | .revive
  | .install => inferInstanceAs (Decidable True)

/-! ### A writer and its history -/

/-- The writer holds a window of the frames of its history, and its nonce has counted them. -/
structure Tracked.Sound (S : Sodium) (t : Tracked) : Prop where
  window : Window (t.history.map (Sealed.frame S)) t.writer
  room : t.writer.sequence ≤ i64Max
  direction : t.writer.crypto.direction = dirServerToClient
  nonce_eq : t.writer.crypto.nonce =
    ((CryptoHandler.new t.key dirServerToClient).advance t.writer.sequence.toNat).nonce
  keys : ∀ a ∈ t.history, a.key = t.key

namespace Tracked
variable {S : Sodium} {header : UInt8} {t : Tracked} {payload : Bytes}

/-- The record of the next packet. -/
def next (t : Tracked) (header : UInt8) (payload : Bytes) : Sealed :=
  ⟨t.key, t.writer.crypto.bump.nonce, t.writer.sequence + 1, header, payload⟩

/-- After it took the packet. -/
def push (S : Sodium) (t : Tracked) (header : UInt8) (payload : Bytes) : Tracked :=
  ⟨(t.writer.writePacket S header payload).2, t.history ++ [t.next header payload]⟩

theorem write_refused (h : t.writer.accepts payload.length = false) : t.write S header payload = (.skipped, t) := by
  rw [write, writePacket_refused h]

section
variable (header : UInt8) (h : t.writer.accepts payload.length = true)
include h

theorem write_accepted :
    t.write S header payload =
      (if t.writer.connected then .send (packetFrame S t.writer.crypto header payload) else .bufferedOnly,
        t.push S header payload) := by
  obtain ⟨hout, hcry, hseq, -, -⟩ := writePacket_accepted (S := S) header h
  rcases hw : t.writer.writePacket S header payload with ⟨outcome, writer⟩
  rw [hw] at hout hcry hseq
  dsimp only at hout hcry hseq
  subst hout
  unfold write push next key
  rw [hw]
  cases t.writer.connected <;> simp [hcry, hseq]

theorem key_push : (t.push S header payload).key = t.key := by
  obtain ⟨-, hcry, -, -, -⟩ := writePacket_accepted (S := S) header h
  rw [key, push, hcry]
  rfl

theorem sequence_push : (t.push S header payload).writer.sequence = t.writer.sequence + 1 :=
  (writePacket_accepted header h).2.2.1

end

theorem mem_push {a : Sealed}
    (h : a ∈ (t.push S header payload).history) : a ∈ t.history ∨ a = t.next header payload :=
  (mem_append.mp h).imp_right mem_singleton.mp

theorem mem_newest_push {sentBytes : Nat}
    {a : Sealed} (h : a ∈ (t.push S header payload).newest sentBytes) : a = t.next header payload := by
  unfold newest push at h
  split at h
  · cases h
  · simpa using h

theorem mem_newest {sentBytes : Nat} {a : Sealed} (h : a ∈ t.newest sentBytes) :
    a ∈ t.history := by
  unfold newest at h
  split at h
  · cases h
  · exact List.mem_of_getLast? (Option.mem_toList.mp h)

namespace Sound
variable {S : Sodium} {t : Tracked}

theorem sequence_nonneg (h : t.Sound S) : 0 ≤ t.writer.sequence := by
  rw [h.window.sequence_eq]
  exact Int.natCast_nonneg _

/-- A writer with the same handler and sequence over the same frames. -/
theorem with_window (h : t.Sound S) {writer : BackedWriter}
    (hwin : Window (t.history.map (Sealed.frame S)) writer) (hcry : writer.crypto = t.writer.crypto) :
    Sound S { t with writer := writer } := by
  have hseq : writer.sequence = t.writer.sequence := by
    rw [hwin.sequence_eq, h.window.sequence_eq]
  refine ⟨hwin, hseq ▸ h.room, hcry ▸ h.direction, ?_, ?_⟩
  · rw [key, hcry, hseq]
    exact h.nonce_eq
  · rw [key, hcry]
    exact h.keys

theorem disconnect (h : t.Sound S) : t.disconnect.Sound S := h.with_window h.window.invalidate rfl

theorem new (S : Sodium) {crypto : CryptoHandler} {connected : Bool} (hdir : crypto.direction = dirServerToClient)
    (hnonce : crypto.nonce = startNonce dirServerToClient) :
    Sound S ⟨BackedWriter.new crypto connected, []⟩ :=
  ⟨Window.new _ _, show (0 : Int) ≤ i64Max by decide, hdir, hnonce, fun _ ha => by cases ha⟩

/-- The next record has the nonce its sequence says. -/
theorem next_counted (h : t.Sound S) (hroom : t.writer.sequence < i64Max) (header : UInt8)
    (payload : Bytes) : (t.next header payload).Counted := by
  have hnonneg := h.sequence_nonneg
  refine ⟨show 0 ≤ t.writer.sequence + 1 by omega, show t.writer.sequence + 1 ≤ i64Max by omega, ?_⟩
  have hsucc : (t.writer.sequence + 1).toNat = t.writer.sequence.toNat + 1 := by omega
  show t.writer.crypto.nonce.bump = _
  rw [h.nonce_eq]
  show _ = ((CryptoHandler.new t.key dirServerToClient).advance (t.writer.sequence + 1).toNat).nonce
  rw [hsucc, advance_succ, bump_nonce]

theorem push (h : t.Sound S) (hroom : t.writer.sequence < i64Max) (header : UInt8) {payload : Bytes}
    (hacc : t.writer.accepts payload.length = true) : (t.push S header payload).Sound S := by
  obtain ⟨-, hcry, -, -, -⟩ := writePacket_accepted (S := S) header hacc
  have hwin := h.window.writePacket S header payload
  rw [acceptedFrame_eq, if_pos hacc] at hwin
  refine ⟨?_, ?_, ?_, ?_, ?_⟩
  · rw [Tracked.push, map_append, map_singleton]
    exact hwin
  · rw [sequence_push header hacc]
    omega
  · rw [Tracked.push, hcry]
    exact h.direction
  · rw [key_push header hacc, sequence_push header hacc, Tracked.push, hcry]
    exact (h.next_counted hroom header payload).2.2
  · intro a ha
    rw [key_push header hacc]
    rcases mem_push ha with ha | rfl
    · exact h.keys a ha
    · rfl

end Sound
end Tracked

/-! ### The invariant -/

/-- A transport got it, or one of the writers sealed it. -/
def SessionWrites.Knows (s : SessionWrites) (a : Sealed) : Prop :=
  a ∈ s.wire ∨ a ∈ s.live.history ∨ ∃ c ∈ s.candidate, a ∈ c.tracked.history

/-- One packet for each key and sequence number. -/
def OnePerSequence (P : Sealed → Prop) : Prop :=
  ∀ a b, P a → P b → a.key = b.key → a.sequence = b.sequence → a = b

theorem OnePerSequence.mono {P Q : Sealed → Prop} (h : OnePerSequence P) (hsub : ∀ a, Q a → P a) :
    OnePerSequence Q :=
  fun a b ha hb => h a b (hsub a ha) (hsub b hb)

/-- A record above all others of its key. -/
theorem OnePerSequence.push {P Q : Sealed → Prop} {r : Sealed} (h : OnePerSequence P)
    (hnew : ∀ a, P a → a.key = r.key → a.sequence < r.sequence) (hsub : ∀ a, Q a → P a ∨ a = r) :
    OnePerSequence Q := by
  intro a b ha hb hkey hseq
  rcases hsub a ha with ha | rfl <;> rcases hsub b hb with hb | rfl
  · exact h a b ha hb hkey hseq
  · exact absurd hseq (hnew a ha hkey).ne
  · exact absurd hseq (hnew b hb hkey.symm).ne'
  · rfl

/-- No two packets share a key and a sequence number, and the next will not. -/
structure WritesInv (S : Sodium) (s : SessionWrites) : Prop where
  live : s.live.Sound S
  candidate : ∀ c ∈ s.candidate, c.tracked.Sound S
  counted : ∀ a, s.Knows a → a.Counted
  onePerSequence : OnePerSequence s.Knows
  /-- The live writer is ahead of everything sealed under its key, or an announced copy is. -/
  live_ahead : s.Unannounced → ∀ a, s.Knows a → a.key = s.live.key → a.sequence ≤ s.live.writer.sequence
  candidate_ahead : ∀ c ∈ s.candidate, c.phase = .announced ∨ c.tracked.key ≠ s.live.key →
    ∀ a, s.Knows a → a.key = c.tracked.key → a.sequence ≤ c.tracked.writer.sequence

/-- A rekeyed handler starts the counter of its direction again. -/
theorem rekey_start {S : Sodium} {c crypto : CryptoHandler} {salt : Bytes} (h : c.rekey S salt = .ok crypto) :
    crypto.direction = c.direction ∧ crypto.nonce = startNonce c.direction := by
  unfold rekey at h
  split at h
  · cases h
  · cases hhash : S.generichash c.originalKey.1 salt with
    | error e => rw [hhash] at h; cases h
    | ok derived => rw [hhash] at h; cases h; exact ⟨rfl, rfl⟩

namespace WritesInv
variable {S : Sodium} {s : SessionWrites} {c : WritesCandidate}
variable {wire : List Sealed}

theorem new (S : Sodium) (key : Key) : WritesInv S (.new key) := by
  have hnone : ∀ a, ¬ (SessionWrites.new key).Knows a := by
    rintro a (h | h | ⟨c, hc, -⟩)
    · cases h
    · cases h
    · cases hc
  exact
    { live := .new S rfl rfl
      candidate := fun c hc => by cases hc
      counted := fun a ha => absurd ha (hnone a)
      onePerSequence := fun a _ ha => absurd ha (hnone a)
      live_ahead := fun _ a ha => absurd ha (hnone a)
      candidate_ahead := fun c hc => by cases hc }

/-- The live writer changes in what is no packet, and known packets reach a transport. -/
theorem same_live (h : WritesInv S s) {live : Tracked} (hlive : live.Sound S)
    (hkey : live.key = s.live.key) (hseq : live.writer.sequence = s.live.writer.sequence)
    (hhist : live.history = s.live.history) (hwire : ∀ a ∈ wire, s.Knows a) :
    WritesInv S { s with live := live, wire := wire } := by
  have hsub : ∀ a, SessionWrites.Knows { s with live := live, wire := wire } a → s.Knows a := by
    rintro a (ha | ha | ha)
    · exact hwire a ha
    · exact .inr (.inl (hhist ▸ ha))
    · exact .inr (.inr ha)
  refine ⟨hlive, h.candidate, fun a ha => h.counted a (hsub a ha), h.onePerSequence.mono hsub, ?_, ?_⟩
  · intro hun a ha hk
    rw [hseq]
    exact h.live_ahead (fun c hc hp => hkey ▸ hun c hc hp) a (hsub a ha) (hk.trans hkey)
  · intro c hc hor a ha
    exact h.candidate_ahead c hc (hor.imp_right fun hne => hkey ▸ hne) a (hsub a ha)

theorem unannounced (hc : s.candidate = some c) (hph : c.phase ≠ .announced) : s.Unannounced := by
  intro c' hc' hp
  obtain rfl := Option.some.inj (hc.symm.trans hc')
  exact absurd hp hph

section
variable (h : WritesInv S s) (hun : s.Unannounced)
include h hun

/-- A copy that has not announced itself, of known packets. -/
theorem set_candidate {candidate : Option WritesCandidate}
    (hcand : ∀ c ∈ candidate, c.tracked.Sound S ∧ c.phase ≠ .announced ∧ (∀ a ∈ c.tracked.history, s.Knows a) ∧
      (c.tracked.key ≠ s.live.key →
        ∀ a, s.Knows a → a.key = c.tracked.key → a.sequence ≤ c.tracked.writer.sequence))
    (hwire : ∀ a ∈ wire, s.Knows a) : WritesInv S { s with candidate := candidate, wire := wire } := by
  have hsub : ∀ a, SessionWrites.Knows { s with candidate := candidate, wire := wire } a → s.Knows a := by
    rintro a (ha | ha | ⟨c, hc, ha⟩)
    · exact hwire a ha
    · exact .inr (.inl ha)
    · exact (hcand c hc).2.2.1 a ha
  refine ⟨h.live, fun c hc => (hcand c hc).1, fun a ha => h.counted a (hsub a ha), h.onePerSequence.mono hsub, ?_, ?_⟩
  · exact fun _ a ha => h.live_ahead hun a (hsub a ha)
  · intro c hc hor a ha
    obtain ⟨-, hph, -, hahead⟩ := hcand c hc
    exact hahead (hor.resolve_left hph) a (hsub a ha)

/-- The recovery ends without having announced itself, or under a key of its own. -/
theorem drop_candidate : WritesInv S { s with candidate := none } :=
  h.set_candidate hun (fun c hc => by cases hc) fun _ => .inl

/-- The live writer seals a packet while no copy of its key is ahead. -/
theorem push_live (hroom : s.live.writer.sequence < i64Max) (header : UInt8) (payload : Bytes) {live : Tracked}
    (hlive : live.Sound S) (hkey : live.key = s.live.key) (hseq : live.writer.sequence = s.live.writer.sequence + 1)
    (hhist : live.history = s.live.history ++ [s.live.next header payload])
    (hwire : ∀ a ∈ wire, a ∈ s.wire ∨ a = s.live.next header payload) :
    WritesInv S { s with live := live, wire := wire } := by
  have hsub : ∀ a, SessionWrites.Knows { s with live := live, wire := wire } a →
      s.Knows a ∨ a = s.live.next header payload := by
    rintro a (ha | ha | ha)
    · exact (hwire a ha).imp_left .inl
    · exact (mem_append.mp (hhist ▸ ha)).imp (fun ha => .inr (.inl ha)) mem_singleton.mp
    · exact .inl (.inr (.inr ha))
  have hahead := h.live_ahead hun
  refine ⟨hlive, h.candidate, ?_, h.onePerSequence.push ?_ hsub, ?_, ?_⟩
  · intro a ha
    rcases hsub a ha with ha | rfl
    · exact h.counted a ha
    · exact h.live.next_counted hroom header payload
  · exact fun a ha hk => Int.lt_add_one_of_le (hahead a ha hk)
  · intro _ a ha hk
    rw [hseq]
    rcases hsub a ha with ha | rfl
    · exact (hahead a ha (hk.trans hkey)).trans (Int.le_add_one le_rfl)
    · exact le_rfl
  · intro c hc hor a ha hk
    rw [hkey] at hor
    -- A copy the live writer may overtake is not announced, so it has another key.
    have hne : c.tracked.key ≠ s.live.key := hor.elim (hun c hc) id
    rcases hsub a ha with ha | rfl
    · exact h.candidate_ahead c hc hor a ha hk
    · exact absurd hk hne.symm

end

/-- The copy seals its keep-alive while it is ahead of everything under its key. -/
theorem push_candidate (h : WritesInv S s) (hc : s.candidate = some c) (hph : c.phase ≠ .announced)
    (hroom : c.tracked.writer.sequence < i64Max)
    (hahead : ∀ a, s.Knows a → a.key = c.tracked.key → a.sequence ≤ c.tracked.writer.sequence)
    (header : UInt8) {payload : Bytes} (hacc : c.tracked.writer.accepts payload.length = true)
    (sentBytes : Nat) :
    WritesInv S
      { s with
        candidate := some ⟨c.tracked.push S header payload, .announced⟩
        wire := s.wire ++ (c.tracked.push S header payload).newest sentBytes } := by
  have hun := unannounced hc hph
  have hsd := h.candidate c hc
  have hkey := Tracked.key_push (S := S) header hacc
  have hsub : ∀ a, SessionWrites.Knows
      { s with
        candidate := some ⟨c.tracked.push S header payload, .announced⟩
        wire := s.wire ++ (c.tracked.push S header payload).newest sentBytes } a →
      s.Knows a ∨ a = c.tracked.next header payload := by
    rintro a (ha | ha | ⟨c', hc', ha⟩)
    · exact (mem_append.mp ha).imp .inl Tracked.mem_newest_push
    · exact .inl (.inr (.inl ha))
    · cases hc'
      exact (Tracked.mem_push ha).imp_left fun ha => .inr (.inr ⟨c, hc, ha⟩)
  refine ⟨h.live, ?_, ?_, h.onePerSequence.push ?_ hsub, ?_, ?_⟩
  · intro c' hc'
    cases hc'
    exact hsd.push hroom header hacc
  · intro a ha
    rcases hsub a ha with ha | rfl
    · exact h.counted a ha
    · exact hsd.next_counted hroom header payload
  · exact fun a ha hk => Int.lt_add_one_of_le (hahead a ha hk)
  · intro hun' a ha hk
    have hne : c.tracked.key ≠ s.live.key := hkey ▸ hun' _ rfl rfl
    rcases hsub a ha with ha | rfl
    · exact h.live_ahead hun a ha hk
    · exact absurd hk hne
  · intro c' hc' _ a ha hk
    cases hc'
    rw [Tracked.sequence_push header hacc]
    rcases hsub a ha with ha | rfl
    · exact (hahead a ha (hk.trans hkey)).trans (Int.le_add_one le_rfl)
    · exact le_rfl

/-! ### One step -/

section
variable (h : WritesInv S s)
include h

theorem liveWrite (hun : s.Unannounced) (hroom : s.live.writer.sequence < i64Max) (header : UInt8) (payload : Bytes)
    (sentBytes : Nat) : WritesInv S (s.liveWrite S header payload sentBytes) := by
  unfold SessionWrites.liveWrite
  cases hacc : s.live.writer.accepts payload.length with
  | false =>
    rw [Tracked.write_refused hacc]
    exact h
  | true =>
    have hsd := h.live.push hroom header hacc
    have hkey := Tracked.key_push (S := S) header hacc
    have hseq := Tracked.sequence_push (S := S) header hacc
    rw [Tracked.write_accepted header hacc]
    cases hconn : s.live.writer.connected with
    | false => exact h.push_live hun hroom header payload hsd hkey hseq rfl fun a ha => .inl ha
    | true =>
      have hwire : ∀ a ∈ s.wire ++ (s.live.push S header payload).newest sentBytes,
          a ∈ s.wire ∨ a = s.live.next header payload :=
        fun a ha => (mem_append.mp ha).imp_right Tracked.mem_newest_push
      simp only [if_true]
      split
      · exact h.push_live hun hroom header payload hsd.disconnect hkey hseq rfl hwire
      · exact h.push_live hun hroom header payload hsd hkey hseq rfl hwire

theorem snapshot : WritesInv S s.snapshot := by
  unfold SessionWrites.snapshot
  split
  · exact h
  rename_i hnone
  refine h.set_candidate (fun c hc => ?_) ?_ fun _ => .inl
  · rw [hnone] at hc
    cases hc
  · rintro _ ⟨⟩
    exact ⟨h.live.disconnect, nofun, fun a ha => .inr (.inl ha), fun hne => absurd rfl hne⟩

theorem sendCatchup (remoteSequence : Int) (count : Nat) : WritesInv S (s.sendCatchup remoteSequence count) := by
  unfold SessionWrites.sendCatchup
  split
  next tracked hc =>
    have hun := unannounced hc nofun
    split
    · exact h.drop_candidate hun
    refine h.set_candidate hun ?_ ?_
    · rintro _ ⟨⟩
      exact ⟨h.candidate ⟨tracked, .taken⟩ hc, nofun, fun a ha => .inr (.inr ⟨_, hc, ha⟩),
        fun hne => h.candidate_ahead ⟨tracked, .taken⟩ hc (.inr hne)⟩
    exact fun a ha => (mem_append.mp ha).imp_right fun ha => .inr ⟨_, hc, mem_of_mem_drop (mem_of_mem_take ha)⟩
  · exact h

theorem revive : WritesInv S s.revive := by
  unfold SessionWrites.revive
  split
  next tracked hc =>
    have hsd := h.candidate _ hc
    refine h.set_candidate (unannounced hc nofun) ?_ fun _ => .inl
    rintro _ ⟨⟩
    exact ⟨hsd.with_window hsd.window.revive rfl, nofun, fun a ha => .inr (.inr ⟨_, hc, ha⟩),
      fun hne => h.candidate_ahead ⟨tracked, .served⟩ hc (.inr hne)⟩
  · exact h

/-- A reset that derives a new key starts where nothing was sealed. -/
theorem reset (salt : Bytes) (hnew : ∀ c ∈ s.candidate, s.NewKey (c.tracked.writer.crypto.rekey S salt)) :
    WritesInv S (s.reset S salt) := by
  unfold SessionWrites.reset
  split
  next tracked hc =>
    have hun := unannounced hc nofun
    have hdrop := h.drop_candidate hun
    have hdir := (h.candidate _ hc).direction
    have hnewKey := hnew _ hc
    unfold BackedWriter.reset
    rcases hrekey : tracked.writer.crypto.rekey S salt with e | crypto
    · exact hdrop
    · rw [hrekey] at hnewKey
      obtain ⟨hd, hn⟩ := rekey_start hrekey
      have hsd : Tracked.Sound S ⟨BackedWriter.new crypto false, []⟩ :=
        .new S (hd.trans hdir) (hn.trans (by rw [hdir]))
      -- the copy's old history goes with it: only the wire and the live writer are left to differ from
      refine hdrop.set_candidate (fun c hc => by cases hc) ?_ fun _ => .inl
      rintro _ ⟨⟩
      refine ⟨hsd.with_window hsd.window.revive rfl, nofun, nofun, ?_⟩
      rintro - a (ha | ha | ⟨c, hc, -⟩) hk
      · exact absurd hk (hnewKey.2 a ha)
      · exact absurd (hk.symm.trans (h.live.keys a ha)) hnewKey.1
      · cases hc
  · exact h

theorem announce (hroom : ∀ c ∈ s.candidate, c.tracked.writer.sequence < i64Max) (ack : Bytes) (sentBytes : Nat)
    (hok : KeepsNonces S s (.keepAlive ack sentBytes)) : WritesInv S (s.announce S ack sentBytes) := by
  unfold SessionWrites.announce
  split
  next tracked hc =>
    have hun := unannounced hc nofun
    have hdrop := h.drop_candidate hun
    cases hacc : tracked.writer.accepts ack.length with
    | false =>
      rw [Tracked.write_refused hacc]
      exact hdrop
    | true =>
      rw [Tracked.write_accepted keepAlive hacc]
      cases hconn : tracked.writer.connected with
      | false => exact hdrop
      | true =>
        simp only [if_true, length_packetFrame]
        by_cases hzero : sentBytes = 0
        · subst hzero
          rw [if_pos (by omega), Tracked.newest, if_pos rfl, append_nil]
          exact hdrop
        -- Whoever has the live key is as far as the live writer, so nothing is above it.
        have hsame : tracked.key = s.live.key → tracked.writer.sequence = s.live.writer.sequence ∧
            4 + (2 + ack.length + macLen) ≤ sentBytes :=
          fun hk => (hok _ hc hk).resolve_left hzero
        have hahead : ∀ a, s.Knows a → a.key = tracked.key →
            a.sequence ≤ tracked.writer.sequence := by
          intro a ha hk
          by_cases hlive : tracked.key = s.live.key
          · rw [(hsame hlive).1]
            exact h.live_ahead hun a ha (hk.trans hlive)
          · exact h.candidate_ahead _ hc (.inr hlive) a ha hk
        have hpush := h.push_candidate hc nofun (hroom _ hc) hahead keepAlive hacc sentBytes
        split
        · -- sent in part: allowed only under a key of its own
          refine hpush.drop_candidate fun c' hc' _ => ?_
          cases hc'
          rw [Tracked.key_push keepAlive hacc]
          intro hlive
          have := (hsame hlive).2
          omega
        · exact hpush
  · exact h

theorem install : WritesInv S s.install := by
  unfold SessionWrites.install
  split
  next tracked hc =>
    have hsub : ∀ a, SessionWrites.Knows { s with live := tracked, candidate := none } a → s.Knows a := by
      rintro a (ha | ha | ⟨c, hc', -⟩)
      · exact .inl ha
      · exact .inr (.inr ⟨_, hc, ha⟩)
      · cases hc'
    exact
      { live := h.candidate _ hc
        candidate := fun c hc => by cases hc
        counted := fun a ha => h.counted a (hsub a ha)
        onePerSequence := h.onePerSequence.mono hsub
        live_ahead := fun _ a ha => h.candidate_ahead _ hc (.inl rfl) a (hsub a ha)
        candidate_ahead := fun c hc => by cases hc }
  · exact h

/-- **What every allowed step keeps.** -/
theorem step {s' : SessionWrites} (hstep : WritesStep S (KeepsNonces S) s s') : WritesInv S s' := by
  obtain ⟨e, hlive, hcandidate, hok⟩ := hstep
  cases e with
  | liveWrite header payload sentBytes => exact h.liveWrite hok hlive header payload sentBytes
  | livePending =>
    refine h.same_live h.live rfl rfl rfl fun a ha => ?_
    exact (mem_append.mp ha).imp_right fun ha => .inl (Tracked.mem_newest ha)
  | liveAcknowledge acknowledged =>
    have hwin := h.live.window.acknowledge acknowledged
    have hcry : (s.live.writer.acknowledge acknowledged).crypto = s.live.writer.crypto := by
      unfold BackedWriter.acknowledge
      split <;> rfl
    refine h.same_live (h.live.with_window hwin hcry) (by rw [Tracked.key, hcry]; rfl) ?_ rfl
      fun a ha => .inl ha
    exact hwin.sequence_eq.trans h.live.window.sequence_eq.symm
  | liveDisconnect => exact h.same_live h.live.disconnect rfl rfl rfl fun a ha => .inl ha
  | snapshot => exact h.snapshot
  | sendCatchup remoteSequence count => exact h.sendCatchup remoteSequence count
  | revive => exact h.revive
  | reset salt => exact h.reset salt hok
  | keepAlive ack sentBytes => exact h.announce hcandidate ack sentBytes hok
  | install => exact h.install
  | fail => exact h.drop_candidate hok

end

end WritesInv

/-! ### Runs -/

/-- The sequence is in the nonce. -/
theorem Sealed.Counted.sequence_eq {a b : Sealed} (ha : a.Counted) (hb : b.Counted)
    (hkey : a.key = b.key) (hnonce : a.nonce = b.nonce) : a.sequence = b.sequence := by
  obtain ⟨ha₀, ha₁, ha₂⟩ := ha
  obtain ⟨hb₀, hb₁, hb₂⟩ := hb
  -- the counter does not come round within an `i64` of packets
  have hperiod : (i64Max.toNat : Nat) < 256 ^ nonceLen := by decide
  rw [ha₂, hb₂, hkey] at hnonce
  have := advance_nonce_inj (by omega) (by omega) hnonce
  omega

/-- **In a run that meets the condition no two different plaintexts are put on a transport under one
key and nonce, and no two different packets under one key and sequence number.** -/
theorem no_nonce_reused {S : Sodium} {key : Key} {s : SessionWrites}
    (hrun : Relation.ReflTransGen (WritesStep S (KeepsNonces S)) (.new key) s) {a b : Sealed}
    (ha : a ∈ s.wire) (hb : b ∈ s.wire) (hkey : a.key = b.key) :
    (a.nonce = b.nonce → a.payload = b.payload) ∧
      (a.sequence = b.sequence → a.header = b.header ∧ a.payload = b.payload) := by
  have h : WritesInv S s := reach_invariant (P := WritesInv S) hrun (.new S key) fun _ _ h => h.step
  have hsame : a.sequence = b.sequence → a = b := h.onePerSequence a b (.inl ha) (.inl hb) hkey
  refine ⟨fun hnonce => ?_, fun hseq => ?_⟩
  · rw [hsame ((h.counted a (.inl ha)).sequence_eq (h.counted b (.inl hb)) hkey hnonce)]
  · rw [hsame hseq]
    exact ⟨rfl, rfl⟩

/-! ### Runs made of events -/

/-- A box whose derived keys are the salts: enough to run the model with resets. -/
def saltKeyed : Sodium where
  secretbox := Sodium.keyTagged.secretbox
  secretboxOpen := Sodium.keyTagged.secretboxOpen
  generichash _ salt := if h : salt.length = keyLen then .ok ⟨salt, h⟩ else .error .proofError
  length_secretbox := Sodium.keyTagged.length_secretbox

/-- The sequences have room for one more packet. -/
def WritesRoom (s : SessionWrites) : Prop :=
  s.live.writer.sequence < i64Max ∧ ∀ c ∈ s.candidate, c.tracked.writer.sequence < i64Max

instance (s : SessionWrites) : Decidable (WritesRoom s) :=
  inferInstanceAs (Decidable (_ ∧ ∀ c ∈ s.candidate, c.tracked.writer.sequence < i64Max))

theorem writes_reach {S : Sodium} {allowed : SessionWrites → WritesEvent → Prop} {s : SessionWrites}
    (es : List WritesEvent)
    (h : AllowedRun (SessionWrites.apply S) (fun s e => WritesRoom s ∧ allowed s e) s es) :
    Relation.ReflTransGen (WritesStep S allowed) s (es.foldl (SessionWrites.apply S) s) :=
  reach_of_events (fun s e h => .step s e h.1.1 h.1.2 h.2) es h

/-- A recovery that fails after its catchup, one that succeeds and one that resets, with packets of the
session's own between them. -/
def recoveredWrites : List WritesEvent :=
  [.liveWrite 7 [1] 23, .snapshot, .sendCatchup 0 1, .fail, .liveWrite 7 [2] 5, .snapshot,
    .sendCatchup 1 1, .revive, .keepAlive [] 22, .install, .liveWrite 7 [3] 23, .snapshot,
    .reset (List.replicate epochSaltBytes 9), .keepAlive [] 3, .liveWrite 7 [4] 23]

/-- The run meets the condition; the frame of a packet goes out again in a catchup, and no other packet
has its nonce or its sequence. -/
theorem no_nonce_reused_recovered :
    let s := recoveredWrites.foldl (SessionWrites.apply saltKeyed) (.new zeroKey)
    s.wire.map (fun a => (a.key == zeroKey, a.sequence, a.payload)) =
        [(true, 1, [1]), (true, 1, [1]), (true, 2, [2]), (true, 2, [2]), (true, 3, []), (true, 4, [3]),
          (false, 1, []), (true, 5, [4])] ∧
      ∀ a ∈ s.wire, ∀ b ∈ s.wire, a.key = b.key →
        (a.nonce = b.nonce → a.payload = b.payload) ∧
          (a.sequence = b.sequence → a.header = b.header ∧ a.payload = b.payload) :=
  ⟨by decide +kernel, fun _ ha _ hb hkey =>
    no_nonce_reused (writes_reach (S := saltKeyed) recoveredWrites (by decide +kernel)) ha hb hkey⟩

/-- A recovery that fails at its install. -/
def failedInstall : List WritesEvent :=
  [.snapshot, .sendCatchup 0 0, .revive, .keepAlive [] 22, .fail, .liveWrite 7 [1] 23]

/-- **A nonce is used twice**: the keep-alive of a recovery that then fails, and the next packet of the
connection that survives it, have one key, one nonce and one sequence number. -/
theorem nonce_reused :
    ∃ s, Relation.ReflTransGen (WritesStep saltKeyed fun _ _ => True) (.new zeroKey) s ∧
      ∃ a ∈ s.wire, ∃ b ∈ s.wire, a.key = b.key ∧ a.nonce = b.nonce ∧ a.sequence = b.sequence ∧
        a.payload ≠ b.payload ∧ a.header ≠ b.header :=
  ⟨_, writes_reach failedInstall (by decide +kernel), by decide +kernel⟩

end EternalTerminal
