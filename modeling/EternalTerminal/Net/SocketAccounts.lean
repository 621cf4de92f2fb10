import EternalTerminal.Net.ForwardedSocket

/-!
# Net — the accounts of a socket

What the operations on a forwarded socket do for the direction it sends in, whose data is counted against the
peer's window, and for the direction it receives in, whose data is owed to the peer until it is returned as
credit.
-/

namespace EternalTerminal
open Machine Bytes History List Option

/-! ### What is accounted for -/

namespace PortForwardData

/-- The data for the socket in a packet. -/
def bytes (d : PortForwardData) : Int := (d.buffer.getD []).length

def packets (d : PortForwardData) : Int := if (d.buffer.getD []).isEmpty then 0 else 1

def creditBytes (d : PortForwardData) : Int := (d.window.bind PortForwardWindow.bytes).getD 0

def creditPackets (d : PortForwardData) : Int := (d.window.bind PortForwardWindow.packets).getD 0

/-- Neither an error nor any kind of close. -/
def Plain (d : PortForwardData) : Prop := d.error = none ∧ d.closed = none ∧ d.halfClose = none

/-- The socket it is about is gone, or will be. -/
def Ends (d : PortForwardData) : Prop := d.error.isSome = true ∨ (d.closed = some true ∧ d.halfClose = none)

theorem bytes_nonneg (d : PortForwardData) : 0 ≤ d.bytes := Int.natCast_nonneg _

theorem packets_nonneg (d : PortForwardData) : 0 ≤ d.packets := by
  unfold packets
  split <;> decide

end PortForwardData

open PortForwardData

/-- What a window counts. -/
inductive Count where
  | bytes
  | packets

namespace Count

def data : Count → PortForwardData → Int
  | bytes => PortForwardData.bytes
  | packets => PortForwardData.packets

def credit : Count → PortForwardData → Int
  | bytes => creditBytes
  | packets => creditPackets

def buffer : Count → Bytes → Int
  | bytes, buffer => buffer.length
  | packets, _ => 1

def limit : Count → Int
  | bytes => windowBytes
  | packets => windowPackets

theorem data_nonneg (u : Count) (d : PortForwardData) : 0 ≤ u.data d := by
  cases u with
  | bytes => exact d.bytes_nonneg
  | packets => exact d.packets_nonneg

theorem buffer_nonneg (u : Count) (buffer : Bytes) : 0 ≤ u.buffer buffer := by
  cases u with
  | bytes => exact Int.natCast_nonneg _
  | packets => exact Int.zero_le_ofNat 1

theorem limit_bounds (u : Count) : 0 < u.limit ∧ u.limit ≤ i32Max := by
  cases u <;> decide

end Count

theorem data_sendData (u : Count) (role : Role) (socketId : Int) {buffer : Bytes} (h : buffer ≠ []) :
    u.data (sendData role socketId buffer false none) = u.buffer buffer := by
  cases buffer with
  | nil => exact absurd rfl h
  | cons b buffer => cases u <;> rfl

theorem plain_sendData (role : Role) (socketId : Int) (buffer : Bytes) :
    (sendData role socketId buffer false none).Plain := ⟨rfl, rfl, rfl⟩

namespace SocketIo
variable {s s' : SocketIo}

def window (s : SocketIo) : Count → Int
  | .bytes => s.windowBytes
  | .packets => s.windowPackets

def inFlight (s : SocketIo) : Count → Int
  | .bytes => s.inFlightBytes
  | .packets => s.inFlightPackets

/-- Received, and not yet returned as credit. -/
def owed (s : SocketIo) : Count → Int
  | .bytes => s.creditBytes + total QueuedBuffer.size s.out
  | .packets => s.creditPackets + s.out.length

theorem Bounded.counts (h : Bounded s) (u : Count) :
    0 ≤ s.inFlight u ∧ s.inFlight u ≤ s.window u ∧ s.window u ≤ u.limit := by
  cases u with
  | bytes => exact ⟨h.bytes_nonneg, h.bytes_le, h.windowBytes_le⟩
  | packets => exact ⟨h.packets_nonneg, h.packets_le, h.windowPackets_le⟩

theorem SameSender.counts (h : SameSender s s') (u : Count) :
    s'.window u = s.window u ∧ s'.inFlight u = s.inFlight u := by
  cases u with
  | bytes => exact ⟨h.windowBytes, h.inFlightBytes⟩
  | packets => exact ⟨h.windowPackets, h.inFlightPackets⟩

theorem Credited.counts (h : Credited s s') (u : Count) :
    s'.owed u ≤ s.owed u ∧ min i64Max (s.owed u) ≤ s'.owed u := by
  cases u with
  | bytes => exact ⟨h.bytes_le, h.le_bytes⟩
  | packets => exact ⟨h.packets_le, h.le_packets⟩

/-- What holds of every active socket of a windowed peer. -/
structure Sound (s : SocketIo) : Prop where
  bounded : Bounded s
  credit : CreditSound s
  nonempty : ∀ b ∈ s.out, 0 < b.len
  offset : OffsetWithin s.out s.outOffset
  closing : s.closeWhenDrained = true → s.readOpen = false

theorem Sound.closing_of (h : Sound s) {s' : SocketIo} (hread : s'.readOpen = s.readOpen)
    (hclose : s'.closeWhenDrained = s.closeWhenDrained) : s'.closeWhenDrained = true → s'.readOpen = false := by
  rw [hread, hclose]
  exact h.closing

/-- The local socket is still read. -/
def reading (s : SocketIo) : Bool := s.readOpen && !s.closeWhenDrained

theorem Sound.owed_nonneg (h : Sound s) (u : Count) : 0 ≤ s.owed u := by
  have h₁ := h.credit.bytes_nonneg
  have h₂ := total_nonneg QueuedBuffer.size (l := s.out) fun b _ => b.size_nonneg
  have h₃ := h.credit.packets_nonneg
  cases u <;> dsimp only [owed] <;> omega

/-- From `s` to `s'` the data of `emitted` was read and sent, and queued packets were written; nothing was
closed. -/
structure Steady (s s' : SocketIo) (emitted : List PortForwardData) : Prop where
  role : s'.role = s.role
  socketId : s'.socketId = s.socketId
  reading : s'.reading = s.reading
  isWriteClosed : s'.isWriteClosed = s.isWriteClosed
  window : ∀ u, s'.window u = s.window u
  inFlight : ∀ u, s'.inFlight u = s.inFlight u + total u.data emitted
  credited : Credited s s'
  sound : Sound s'
  plain : ∀ p ∈ emitted, p.Plain ∧ p.window = none

theorem Steady.refl (h : Sound s) : Steady s s [] :=
  ⟨rfl, rfl, rfl, rfl, fun _ => rfl, fun _ => (Int.add_zero _).symm, .refl h.credit, h, by simp⟩

theorem Steady.trans {s₁ s₂ s₃ : SocketIo} {emitted emitted' : List PortForwardData} (h : Steady s₁ s₂ emitted)
    (h' : Steady s₂ s₃ emitted') : Steady s₁ s₃ (emitted ++ emitted') where
  role := h'.role.trans h.role
  socketId := h'.socketId.trans h.socketId
  reading := h'.reading.trans h.reading
  isWriteClosed := h'.isWriteClosed.trans h.isWriteClosed
  window u := (h'.window u).trans (h.window u)
  inFlight u := by rw [h'.inFlight, h.inFlight, total_append, Int.add_assoc]
  credited := h.credited.trans h'.credited
  sound := h'.sound
  plain := by
    exact forall_mem_append.mpr ⟨h.plain, h'.plain⟩

/-- Flushing sends nothing. -/
theorem steady_flushOut (h : Sound s) (writes : List WriteResult) :
    Steady s (s.flushOut writes).2.1 [] := by
  have hwrote := wrote_flushOut s writes
  obtain ⟨-, hoff, hsuf, hcredited⟩ := flushOut_spec h.nonempty h.offset writes
  replace hcredited := hcredited h.credit
  have hsend := hwrote.sender
  refine ⟨hwrote.role, hwrote.socketId, ?_, hwrote.isWriteClosed, fun u => (hsend.counts u).1, fun u => ?_, hcredited,
    ⟨h.bounded.of_sameSender hsend, hcredited.sound, fun b hb => h.nonempty b (hsuf.subset hb), hoff,
      h.closing_of hsend.readOpen hsend.closeWhenDrained⟩, by simp⟩
  · rw [reading, reading, hsend.readOpen, hsend.closeWhenDrained]
  · rw [(hsend.counts u).2, total_nil, Int.add_zero]

/-- A shutdown changes which flag says that the write side is closed. -/
theorem steady_shutdownDrained (h : Sound s) : Steady s s.shutdownDrained [] := by
  unfold shutdownDrained
  split
  next hdr =>
    rw [Bool.and_eq_true] at hdr
    refine ⟨rfl, rfl, rfl, ?_, fun u => by cases u <;> rfl, fun u => by cases u <;> exact (Int.add_zero _).symm,
      ⟨Int.le_refl _, Int.le_refl _, Int.min_le_right _ _, Int.min_le_right _ _, ?_⟩, ?_, by simp⟩
    · simp only [isWriteClosed, hdr.1, Bool.or_true, Bool.true_or, Bool.or_false]
    · exact { h.credit with }
    · exact { h with bounded := { h.bounded with }, credit := { h.credit with } }
  · exact .refl h

theorem Sound.of_sameReceiver (h : Sound s) (hbnd : Bounded s') (hsame : SameReceiver s s')
    (hclosing : s'.closeWhenDrained = true → s'.readOpen = false) : Sound s' := by
  obtain ⟨hw, h₁, h₂, h₃, h₄, h₅⟩ := h.credit
  have hw' := windowed_of_same hsame.windowBytes hsame.windowPackets
  refine ⟨hbnd, ?_, ?_, ?_, hclosing⟩
  · constructor <;> simp only [hsame.creditBytes, hsame.creditPackets, hw'] <;> assumption
  · rw [hsame.out]
    exact h.nonempty
  · rw [hsame.out, hsame.outOffset]
    exact h.offset

theorem credited_of_sameReceiver (h : CreditSound s') (hsame : SameReceiver s s') : Credited s s' := by
  refine ⟨?_, ?_, ?_, ?_, h⟩ <;> rw [hsame.out] <;> simp only [hsame.creditBytes, hsame.creditPackets, Int.le_refl,
    Int.min_le_right]

/-- A read that returns no data changes nothing either half reads. -/
theorem steady_same (h : Sound s) (hsend : SameSender s s') (hsame : SameReceiver s s') :
    Steady s s' [] := by
  have hsd := h.of_sameReceiver (h.bounded.of_sameSender hsend) hsame
    (h.closing_of hsend.readOpen hsend.closeWhenDrained)
  refine ⟨hsame.role, hsame.socketId, ?_, hsame.isWriteClosed, fun u => (hsend.counts u).1, fun u => ?_,
    credited_of_sameReceiver hsd.credit hsame, hsd, by simp⟩
  · rw [reading, reading, hsend.readOpen, hsend.closeWhenDrained]
  · rw [(hsend.counts u).2, total_nil, Int.add_zero]

/-- A read that returns data sends it. -/
theorem steady_sent (h : Sound s) {buffer : Bytes} (hne : buffer ≠ [])
    (hbs : s.inFlightBytes + buffer.length ≤ s.windowBytes) (hpkts : s.inFlightPackets < s.windowPackets)
    (hsent : Sent s s' buffer.length) (hsame : SameReceiver s s') :
    Steady s s' [sendData s.role s.socketId buffer false none] := by
  obtain ⟨h₁, h₂, h₃, h₄, h₅, h₆⟩ := h.bounded
  have hbnd : Bounded s' := by
    constructor <;> simp only [hsent.inFlightBytes, hsent.inFlightPackets, hsent.windowBytes, hsent.windowPackets] <;> omega
  have hsd := h.of_sameReceiver hbnd hsame (h.closing_of hsent.readOpen hsent.closeWhenDrained)
  refine ⟨hsame.role, hsame.socketId, ?_, hsame.isWriteClosed, fun u => ?_, fun u => ?_,
    credited_of_sameReceiver hsd.credit hsame, hsd, ?_⟩
  · rw [reading, reading, hsent.readOpen, hsent.closeWhenDrained]
  · cases u with
    | bytes => exact hsame.windowBytes
    | packets => exact hsame.windowPackets
  · rw [total_cons, total_nil, data_sendData u _ _ hne, Int.add_zero]
    cases u with
    | bytes => exact hsent.inFlightBytes
    | packets => exact hsent.inFlightPackets
  · intro p hp
    obtain rfl := mem_singleton.mp hp
    exact ⟨plain_sendData _ _ _, rfl⟩

/-- How the read loop can end. -/
inductive TurnsSpec (s : SocketIo) : Option SocketVerdict × SocketIo × List PortForwardData → Prop where
  | more {s' : SocketIo} {emitted : List PortForwardData} (steady : Steady s s' emitted) :
      TurnsSpec s (none, s', emitted)
  | eof {s' : SocketIo} {emitted : List PortForwardData} (steady : Steady s s' emitted) :
      TurnsSpec s (some .eof, s', emitted)
  | failed {s' : SocketIo} {emitted : List PortForwardData} (steady : Steady s s' emitted) (role : Role)
      (socketId : Int) (error : String) :
      TurnsSpec s (some .drop, s', emitted ++ [sendData role socketId [] true (some error)])

theorem TurnsSpec.cons {p : PortForwardData} {r : Option SocketVerdict × SocketIo × List PortForwardData}
    (h : Steady s s' [p]) (hr : TurnsSpec s' r) : TurnsSpec s (r.1, r.2.1, p :: r.2.2) := by
  cases hr with
  | more hst => exact .more (h.trans hst)
  | eof hst => exact .eof (h.trans hst)
  | failed hst role socketId error => exact .failed (h.trans hst) role socketId error

theorem readTurns_spec (h : Sound s) (split : Option (Nat × Nat)) (reads : Nat)
    (turns : List ReadTurn) : TurnsSpec s (s.readTurns split reads turns) := by
  induction turns generalizing s split reads with
  | nil => exact .more (.refl h)
  | cons turn turns ih =>
    rw [readTurns]
    split
    next hgd =>
      simp only [Bool.and_eq_true] at hgd
      have hpkts : s.inFlightPackets < s.windowPackets := by
        have hinterest := hgd.1.1
        rw [readInterest, h.bounded.windowed] at hinterest
        split at hinterest
        · cases hinterest
        · simp only [Bool.not_true, Bool.false_eq_true, if_false, Bool.and_eq_true, decide_eq_true_eq] at hinterest
          exact hinterest.2
      obtain ⟨limit, -, hlim, hread⟩ := readEncodedChunk_spec h.bounded (readLen split) turn.reads
      revert hread
      generalize s.readEncodedChunk (readLen split) turn.reads = result
      intro hread
      cases hread with
      | data hne hle hsent hsame =>
        have hst := steady_sent h hne (by omega) hpkts hsent hsame
        dsimp only
        split
        · exact .more hst
        · exact .cons hst (ih hst.sound _ _)
      | idle hsend hsame => exact .more (steady_same h hsend hsame)
      | eof hsend hsame => exact .eof (steady_same h hsend hsame)
      | failed hsend hsame => exact .failed (steady_same h hsend hsame) _ _ _
    · exact .more (.refl h)

/-- How servicing a socket can end. -/
inductive ServiceSpec (s : SocketIo) : SocketVerdict × SocketIo × List PortForwardData × Bytes → Prop where
  | keep {s' : SocketIo} {emitted : List PortForwardData} {written : Bytes} (steady : Steady s s' emitted) :
      ServiceSpec s (.keep, s', emitted, written)
  | drained {s' : SocketIo} {emitted : List PortForwardData} {written : Bytes} (steady : Steady s s' emitted) :
      ServiceSpec s (.drop, s', emitted, written)
  | failed {s' : SocketIo} {emitted : List PortForwardData} {written : Bytes} (steady : Steady s s' emitted)
      (role : Role) (socketId : Int) (error : String) :
      ServiceSpec s (.drop, s', emitted ++ [sendData role socketId [] true (some error)], written)
  | eof {s' : SocketIo} {emitted : List PortForwardData} {written : Bytes} (steady : Steady s s' emitted) :
      ServiceSpec s (.eof, s', emitted, written)

theorem serviceSocket_spec (h : Sound s) (event : ReadySocket) (writes : List WriteResult)
    (turns : List ReadTurn) : ServiceSpec s (s.serviceSocket event writes turns) := by
  unfold serviceSocket
  have hflu : Steady s
      (if event.writable || (event.error && s.writeInterest) then s.flushOut writes else (.ok (), s, [])).2.1 [] := by
    split
    · exact steady_flushOut h writes
    · exact .refl h
  revert hflu
  generalize (if event.writable || (event.error && s.writeInterest) then s.flushOut writes else (.ok (), s, [])) = flush
  intro hflu
  obtain ⟨result, s₁, written⟩ := flush
  cases result with
  | error error => exact .failed hflu _ _ error
  | ok _ =>
    dsimp only at hflu ⊢
    split
    · exact .drained hflu
    have hdown : Steady s (if s₁.out.isEmpty then s₁.shutdownDrained else s₁) [] := by
      split
      · exact hflu.trans (steady_shutdownDrained hflu.sound)
      · exact hflu
    generalize (if s₁.out.isEmpty then s₁.shutdownDrained else s₁) = s₂ at hdown ⊢
    split
    · exact .failed hdown _ _ _
    have hturns : TurnsSpec s₂ (if event.readable then s₂.readTurns none 0 turns else (none, s₂, [])) := by
      split
      · exact readTurns_spec hdown.sound none 0 turns
      · exact .more (.refl hdown.sound)
    generalize (if event.readable then s₂.readTurns none 0 turns else (none, s₂, [])) = result at hturns ⊢
    cases hturns with
    | more hst =>
      dsimp only
      split
      · exact .drained (hdown.trans hst)
      · exact .keep (hdown.trans hst)
    | eof hst => exact .eof (hdown.trans hst)
    | failed hst role socketId error => exact .failed (hdown.trans hst) role socketId error

end SocketIo

/-! ### What an operation does for both directions -/

/-- A packet that returns credit and does nothing else. -/
structure PortForwardData.Credit (d : PortForwardData) : Prop where
  bytes_pos : 0 < d.creditBytes
  packets_pos : 0 < d.creditPackets
  buffer : d.buffer = none
  plain : d.Plain
  window : d.window = some ⟨some d.creditBytes, some d.creditPackets⟩

theorem PortForwardData.Credit.decodeWindow {d : PortForwardData} (h : d.Credit) :
    decodeWindow d.window = some ⟨min d.creditBytes windowBytes, min d.creditPackets windowPackets⟩ := by
  rw [h.window]
  simp only [EternalTerminal.decodeWindow, bind_eq_bind, bind_some, Option.filter, h.bytes_pos, h.packets_pos,
    decide_true, if_true]
  rfl

namespace Handled

/-- Received, and not yet sent back as credit that has arrived. -/
def owed (h : Handled) (u : Count) : Int :=
  h.socket.elim 0 (·.owed u) + total u.credit h.credits + total u.buffer h.held

end Handled
variable {emitted credits : List PortForwardData} {s s' : SocketIo} {d : PortForwardData} {n : Count → Int}
variable {buffer : Bytes} {held : List Bytes}
variable (role : Role) (socketId : Int) (socket : Option SocketIo)

/-- How a socket that stays comes out of an operation. -/
structure Kept (s : SocketIo) (h : Handled) (s' : SocketIo) : Prop where
  sound : s'.Sound
  window : ∀ u, s'.window u = s.window u
  inFlight : ∀ u, s'.inFlight u = s.inFlight u + total u.data h.emitted
  reading : s'.reading = true → s.reading = true ∧ ∀ p ∈ h.emitted, p.Plain

/-- An operation on `s` that brought data counted by `n`: it sends within the window, and what it owes is what it
owed and what arrived. -/
structure Handles (s : SocketIo) (n : Count → Int) (h : Handled) : Prop where
  le : ∀ u, s.inFlight u + total u.data h.emitted ≤ s.window u
  window : ∀ p ∈ h.emitted, p.window = none
  owed_le : ∀ u, h.owed u ≤ s.owed u + n u
  credits : ∀ p ∈ h.credits, p.Credit
  held : ∀ buffer ∈ h.held, buffer ≠ []
  kept : ∀ s', h.socket = some s' → Kept s h s'

/-- As long as the write side is open nothing that arrived is lost, up to counters that saturate; the write
side closes with a packet that says so. -/
structure Delivers (s : SocketIo) (n : Count → Int) (h : Handled) : Prop where
  le_owed : h.socket.isSome = true → s.isWriteClosed = false → ∀ u, min i32Max (s.owed u + n u) ≤ h.owed u
  isWriteClosed : ∀ s', h.socket = some s' → s.isWriteClosed = false → s'.isWriteClosed = true → ∃ p ∈ h.emitted, p.Ends

/-- Both accounts. -/
abbrev Settles (s : SocketIo) (n : Count → Int) (h : Handled) : Prop := Handles s n h ∧ Delivers s n h

open SocketIo

theorem i32Max_le_i64Max : i32Max ≤ i64Max := by decide

variable {h : Handled} {s₁ : SocketIo} {b : QueuedBuffer}

/-- What flushing and reading did comes before the operation. -/
theorem Handles.of_steady (hst : Steady s s₁ emitted) (hhan : Handles s₁ n h)
    (written : Bytes) : Handles s n { h with emitted := emitted ++ h.emitted, written := written } := by
  refine ⟨fun u => ?_, forall_mem_append.mpr ⟨fun p hp => (hst.plain p hp).2, hhan.window⟩, fun u => ?_,
    hhan.credits, hhan.held, fun s' hs' => ?_⟩
  · have hle := hhan.le u
    rw [hst.inFlight, hst.window] at hle
    rw [total_append]
    omega
  · exact (hhan.owed_le u).trans (Int.add_le_add_right (hst.credited.counts u).1 _)
  · obtain ⟨hsd, hwin, hfly, hrd⟩ := hhan.kept s' hs'
    refine ⟨hsd, fun u => (hwin u).trans (hst.window u), fun u => ?_, fun hs'reading => ?_⟩
    · rw [hfly, hst.inFlight, total_append, Int.add_assoc]
    · obtain ⟨hs, hpl⟩ := hrd hs'reading
      exact ⟨hst.reading ▸ hs, forall_mem_append.mpr ⟨fun p hp => (hst.plain p hp).1, hpl⟩⟩

/-- Both accounts, with what flushing and reading did before. -/
theorem accounts_of_steady (hst : Steady s s₁ emitted) (hacc : Settles s₁ (fun _ => 0) h) (written : Bytes) :
    Settles s (fun _ => 0) { h with emitted := emitted ++ h.emitted, written := written } := by
  obtain ⟨hhan, hdel⟩ := hacc
  have hcap := i32Max_le_i64Max
  refine ⟨hhan.of_steady hst written, fun hsome hopen u => ?_, fun s' hs' hopen hcl => ?_⟩
  · have hle := (hst.credited.counts u).2
    refine le_trans ?_ (hdel.le_owed hsome (hst.isWriteClosed.trans hopen) u)
    omega
  · obtain ⟨p, hp, hends⟩ := hdel.isWriteClosed s' hs' (hst.isWriteClosed.trans hopen) hcl
    exact ⟨p, mem_append_right _ hp, hends⟩

/-- Packets without data. -/
def Closing (emitted : List PortForwardData) : Prop :=
  (∀ u : Count, total u.data emitted = 0) ∧ ∀ p ∈ emitted, p.window = none

theorem closing_nil : Closing [] := ⟨fun _ => rfl, by simp⟩

/-- A packet that only closes. -/
theorem closing_sendData (error : Option String) :
    Closing [sendData role socketId [] true error] ∧ (sendData role socketId [] true error).Ends := by
  cases error with
  | none => exact ⟨⟨fun u => by cases u <;> rfl, fun p hp => mem_singleton.mp hp ▸ rfl⟩, .inr ⟨rfl, rfl⟩⟩
  | some error => exact ⟨⟨fun u => by cases u <;> rfl, fun p hp => mem_singleton.mp hp ▸ rfl⟩, .inl rfl⟩

/-- The two halves count and queue the same. -/
structure SameFlow (s s' : SocketIo) : Prop where
  out : s'.out = s.out
  outOffset : s'.outOffset = s.outOffset
  windowBytes : s'.windowBytes = s.windowBytes
  windowPackets : s'.windowPackets = s.windowPackets
  inFlightBytes : s'.inFlightBytes = s.inFlightBytes
  inFlightPackets : s'.inFlightPackets = s.inFlightPackets
  creditBytes : s'.creditBytes = s.creditBytes
  creditPackets : s'.creditPackets = s.creditPackets
  closing : (s.closeWhenDrained = true → s.readOpen = false) → s'.closeWhenDrained = true → s'.readOpen = false

theorem SameFlow.sound (hsame : SameFlow s s') (h : Sound s) : Sound s' := by
  obtain ⟨⟨b₁, b₂, b₃, b₄, b₅, b₆⟩, ⟨hw, h₁, h₂, h₃, h₄, h₅⟩, hne, hoff, hclosing⟩ := h
  refine ⟨?_, ?_, ?_, ?_, hsame.closing hclosing⟩
  · constructor <;> simp only [hsame.inFlightBytes, hsame.inFlightPackets, hsame.windowBytes, hsame.windowPackets] <;>
      assumption
  · refine ⟨(windowed_of_same hsame.windowBytes hsame.windowPackets).trans hw, ?_, ?_, ?_, ?_, ?_⟩ <;>
      simp only [hsame.creditBytes, hsame.creditPackets] <;> assumption
  · rw [hsame.out]
    exact hne
  · rw [hsame.out, hsame.outOffset]
    exact hoff

theorem SameFlow.counts (hsame : SameFlow s s') (u : Count) :
    s'.window u = s.window u ∧ s'.inFlight u = s.inFlight u ∧ s'.owed u = s.owed u := by
  cases u with
  | bytes => exact ⟨hsame.windowBytes, hsame.inFlightBytes, by rw [owed, owed, hsame.creditBytes, hsame.out]⟩
  | packets => exact ⟨hsame.windowPackets, hsame.inFlightPackets, by rw [owed, owed, hsame.creditPackets, hsame.out]⟩

/-- The socket stays, its sending half is as it was, and it owes what it owed and what arrived. -/
theorem handles_kept (h : Sound s) (h' : Sound s')
    (hsame : ∀ u, s'.window u = s.window u ∧ s'.inFlight u = s.inFlight u) (hcl : Closing emitted)
    (hrd : s'.reading = true → s.reading = true ∧ ∀ p ∈ emitted, p.Plain) (hcred : ∀ p ∈ credits, p.Credit)
    (hheld : ∀ buffer ∈ held, buffer ≠ [])
    (howed : ∀ u, Handled.owed ⟨some s', held, emitted, credits, []⟩ u ≤ s.owed u + n u) :
    Handles s n ⟨some s', held, emitted, credits, []⟩ := by
  refine ⟨fun u => ?_, hcl.2, howed, hcred, hheld, fun s'' hs'' => ?_⟩
  · rw [hcl.1, Int.add_zero]
    exact (h.bounded.counts u).2.1
  · cases hs''
    refine ⟨h', fun u => (hsame u).1, fun u => ?_, hrd⟩
    rw [hcl.1, Int.add_zero]
    exact (hsame u).2

theorem delivers_kept (hcl : s.isWriteClosed = false → s'.isWriteClosed = true → ∃ p ∈ emitted, p.Ends)
    (howed : ∀ u, min i32Max (s.owed u + n u) ≤ Handled.owed ⟨some s', held, emitted, credits, []⟩ u) :
    Delivers s n ⟨some s', held, emitted, credits, []⟩ := by
  refine ⟨fun _ _ => howed, fun s'' hs'' => ?_⟩
  cases hs''
  exact hcl

theorem owed_same (hsame : SameFlow s s') (u : Count) : Handled.owed ⟨some s', [], emitted, [], []⟩ u = s.owed u := by
  simp only [Handled.owed, elim_some, total_nil, (hsame.counts u).2.2, Int.add_zero]

/-- Closing packets are sent, and the socket stays with what it had. -/
theorem handles_same (h : Sound s) (hsame : SameFlow s s') (hcl : Closing emitted)
    (hrd : s'.reading = true → s.reading = true ∧ ∀ p ∈ emitted, p.Plain) :
    Handles s (fun _ => 0) ⟨some s', [], emitted, [], []⟩ :=
  handles_kept h (hsame.sound h) (fun u => ⟨(hsame.counts u).1, (hsame.counts u).2.1⟩) hcl hrd (by simp)
    (by simp) fun u => by rw [owed_same hsame, Int.add_zero]

theorem delivers_same (hsame : SameFlow s s')
    (hcl : s.isWriteClosed = false → s'.isWriteClosed = true → ∃ p ∈ emitted, p.Ends) :
    Delivers s (fun _ => 0) ⟨some s', [], emitted, [], []⟩ := by
  refine delivers_kept hcl fun u => ?_
  rw [owed_same hsame, Int.add_zero]
  exact Int.min_le_right _ _

theorem sameFlow_refl (s : SocketIo) : SameFlow s s := ⟨rfl, rfl, rfl, rfl, rfl, rfl, rfl, rfl, id⟩

/-- Nothing happens to the socket. -/
theorem accounts_refl (h : Sound s) :
    Settles s (fun _ => 0) ⟨some s, [], [], [], []⟩ :=
  ⟨handles_same h (sameFlow_refl s) closing_nil fun hs => ⟨hs, by simp⟩,
    delivers_same (sameFlow_refl s) fun hopen hcl => (nomatch hopen.symm.trans hcl)⟩

theorem Handles.mono (hhan : Handles s (fun _ => 0) h) (hn : ∀ u, 0 ≤ n u) : Handles s n h := by
  refine { hhan with owed_le := fun u => ?_ }
  have hle := hhan.owed_le u
  have := hn u
  omega

/-- The socket is dropped. -/
theorem handles_none (h : Sound s) (hcl : Closing emitted) (hn : ∀ u, 0 ≤ n u) :
    Handles s n ⟨none, [], emitted, [], []⟩ := by
  refine ⟨fun u => ?_, hcl.2, fun u => ?_, by simp, by simp, fun _ hs' => absurd hs' (by simp)⟩
  · rw [hcl.1, Int.add_zero]
    exact (h.bounded.counts u).2.1
  · exact Int.add_nonneg (h.owed_nonneg u) (hn u)

theorem delivers_none {written : Bytes} : Delivers s n ⟨none, held, emitted, credits, written⟩ :=
  ⟨fun h => (nomatch h), fun _ hs' => absurd hs' (by simp)⟩

/-- The socket is closed, with a packet that says so. -/
theorem accounts_closed (h : Sound s) (hsame : SameFlow s s') (hrd : s'.reading = false) (role : Role)
    (socketId : Int) :
    Settles s (fun _ => 0) ⟨some s', [], [sendData role socketId [] true none], [], []⟩ := by
  obtain ⟨hcl, hends⟩ := closing_sendData role socketId none
  exact ⟨handles_same h hsame hcl fun hs => (nomatch hrd.symm.trans hs),
    delivers_same hsame fun _ _ => ⟨_, mem_singleton_self _, hends⟩⟩

theorem accounts_dropped (h : Sound s) (role : Role) (socketId : Int) (error : Option String) :
    Settles s (fun _ => 0) ⟨none, [], [sendData role socketId [] true error], [], []⟩ :=
  ⟨handles_none h (closing_sendData role socketId error).1 fun _ => Int.le_refl 0, delivers_none⟩

theorem peerClosed_spec (h : Sound s) :
    Settles s (fun _ => 0) (peerClosed role socketId (some s)) := by
  unfold peerClosed
  dsimp only
  split
  · exact accounts_dropped h role socketId none
  · refine accounts_closed h ?_ ?_ role socketId
    · exact ⟨rfl, rfl, rfl, rfl, rfl, rfl, rfl, rfl, fun _ _ => rfl⟩
    · rfl

theorem readClosed_spec (h : Sound s) :
    Settles s (fun _ => 0) (readClosed role socketId (some s)) := by
  unfold readClosed
  dsimp only
  split
  · exact accounts_refl h
  split
  · have hsame : SameFlow s { s with readOpen := false, halfCloseOnEof := false } :=
      ⟨rfl, rfl, rfl, rfl, rfl, rfl, rfl, rfl, fun _ _ => rfl⟩
    refine ⟨handles_same h hsame ⟨fun u => by cases u <;> rfl, fun p hp => mem_singleton.mp hp ▸ rfl⟩
      fun hs => (nomatch hs), delivers_same hsame fun hs hs' => ?_⟩
    exact nomatch hs.symm.trans hs'
  split
  · exact accounts_dropped h role socketId none
  · refine accounts_closed h ?_ ?_ role socketId
    · exact ⟨rfl, rfl, rfl, rfl, rfl, rfl, rfl, rfl, fun _ _ => rfl⟩
    · rfl

theorem peerHalfClose_spec (h : Sound s) : Handles s (fun _ => 0) (peerHalfClose (some s)) := by
  unfold peerHalfClose
  dsimp only
  split
  all_goals exact handles_same h ⟨rfl, rfl, rfl, rfl, rfl, rfl, rfl, rfl, id⟩ closing_nil fun hs => ⟨hs, by simp⟩

/-! ### Data that arrives -/

theorem sound_push (h : Sound s) (hb : 0 < b.len) : Sound (s.push b) := by
  have hoff := h.offset
  refine ⟨{ h.bounded with }, { h.credit with }, ?_, ?_, h.closing⟩
  · exact forall_mem_append.mpr ⟨h.nonempty, forall_mem_singleton.mpr hb⟩
  · show OffsetWithin (s.out ++ [b]) s.outOffset
    cases hout : s.out with
    | nil =>
      rw [hout] at hoff
      rw [hoff]
      exact hb
    | cons front rest =>
      rw [hout] at hoff
      exact hoff

theorem owed_push (s : SocketIo) (b : QueuedBuffer) (u : Count) : (s.push b).owed u = s.owed u + u.buffer b.bytes := by
  cases u with
  | bytes =>
    show s.creditBytes + total QueuedBuffer.size (s.out ++ [b]) = s.creditBytes + total QueuedBuffer.size s.out + _
    rw [total_append, total_cons, total_nil, QueuedBuffer.size, Count.buffer, b.length_bytes]
    omega
  | packets =>
    show s.creditPackets + ((s.out ++ [b]).length : Int) = s.creditPackets + s.out.length + 1
    rw [length_append, length_singleton]
    omega

/-- A buffer is queued, or held back when it does not fit. -/
theorem accounts_admitted (h : Sound s) (h' : Sound s') (hsame : SameSender s s')
    (hcl : s'.isWriteClosed = s.isWriteClosed) (hheld : ∀ b ∈ held, b ≠ [])
    (howed : ∀ u, s'.owed u + total u.buffer held = s.owed u + n u) :
    Settles s n ⟨some s', held, [], [], []⟩ := by
  have howed' : ∀ u, Handled.owed ⟨some s', held, [], [], []⟩ u = s.owed u + n u := by
    intro u
    simp only [Handled.owed, elim_some, total_nil, Int.add_zero, howed]
  refine ⟨handles_kept h h' hsame.counts closing_nil (fun hs => ⟨?_, by simp⟩) (by simp) hheld
    fun u => (howed' u).le, delivers_kept (fun hopen hs' => ?_) fun u => (Int.min_le_right _ _).trans (howed' u).ge⟩
  · rw [← hs, reading, reading, hsame.readOpen, hsame.closeWhenDrained]
  · exact nomatch (hcl.trans hopen).symm.trans hs'

theorem accounts_push (h : Sound s) (hb : 0 < b.len) :
    Settles s (·.buffer b.bytes) ⟨some (s.push b), [], [], [], []⟩ :=
  accounts_admitted h (sound_push h hb) ⟨rfl, rfl, rfl, rfl, rfl, rfl⟩ rfl (by simp) fun u => by
    rw [owed_push, total_nil, Int.add_zero]

theorem accounts_hold (h : Sound s) (hne : buffer ≠ []) :
    Settles s (·.buffer buffer) ⟨some s, [buffer], [], [], []⟩ :=
  accounts_admitted h h (.refl s) rfl (fun _ hb => mem_singleton.mp hb ▸ hne) fun u => by
    rw [total_cons, total_nil, Int.add_zero]

/-- Data for a write side that is closed is dropped. -/
theorem accounts_ignore (h : Sound s) (hcl : s.isWriteClosed = true) (hn : ∀ u, 0 ≤ n u) :
    Settles s n ⟨some s, [], [], [], []⟩ :=
  ⟨(accounts_refl h).1.mono hn, fun _ hopen => (nomatch hopen.symm.trans hcl),
    fun _ _ hopen => (nomatch hopen.symm.trans hcl)⟩

theorem accounts_admission {r : Handled} (h : Sound s) (hne : buffer ≠ []) (hadm : Admission s buffer r) :
    Settles s (·.buffer buffer) r := by
  cases hadm with
  | closed hcl => exact accounts_ignore h hcl fun u => u.buffer_nonneg buffer
  | queued _ b hb _ =>
    subst hb
    exact accounts_push h (b.length_bytes ▸ length_pos_iff.mpr hne)
  | held => exact accounts_hold h hne

/-! ### The specifications -/

theorem serviceEvent_spec (h : Sound s) (event : ReadySocket) (writes : List WriteResult) (turns : List ReadTurn) :
    Settles s (fun _ => 0) (serviceEvent role socketId (some s) event writes turns) := by
  have hspec := serviceSocket_spec h event writes turns
  unfold serviceEvent
  dsimp only
  generalize s.serviceSocket event writes turns = result at hspec ⊢
  cases hspec with
  | @keep _ _ written hst =>
    have hacc := accounts_of_steady hst (accounts_refl hst.sound) written
    simp only [append_nil] at hacc
    exact hacc
  | @drained s' _ written hst =>
    have hacc := accounts_of_steady hst (h := ⟨none, [], [], [], []⟩)
      ⟨handles_none hst.sound closing_nil fun _ => Int.le_refl 0, delivers_none⟩ written
    simp only [append_nil] at hacc
    exact hacc
  | failed hst role' socketId' error =>
    exact accounts_of_steady hst (accounts_dropped hst.sound role' socketId' (some error)) _
  | eof hst => exact accounts_of_steady hst (readClosed_spec role socketId hst.sound) _

theorem credit_sendCredit {credit packetCredit : Int} (hcred : 0 < credit) (hpkts : 0 < packetCredit) :
    (sendCredit role socketId credit packetCredit).Credit ∧
      (sendCredit role socketId credit packetCredit).creditBytes = credit ∧
      (sendCredit role socketId credit packetCredit).creditPackets = min packetCredit i32Max := by
  have hmin : (sendCredit role socketId credit packetCredit).creditPackets = min packetCredit i32Max := by
    show (if -i32Max - 1 ≤ packetCredit ∧ packetCredit ≤ i32Max then packetCredit else i32Max) = min packetCredit i32Max
    split <;> omega
  refine ⟨⟨hcred, ?_, rfl, ⟨rfl, rfl, rfl⟩, rfl⟩, rfl, hmin⟩
  rw [hmin]
  unfold i32Max
  omega

/-- The credit that is taken is sent. -/
theorem accounts_takeCredit (h : Sound s) :
    Settles s (fun _ => 0) ⟨some s.takeCredit.2, [], [],
        s.takeCredit.1.elim [] fun credit => [sendCredit role socketId credit.1 credit.2], []⟩ := by
  unfold takeCredit
  split
  · exact accounts_refl h
  rename_i hcred
  rw [not_or, not_le, not_le] at hcred
  obtain ⟨hpkt, hbs, hpkts⟩ := credit_sendCredit role socketId hcred.1 hcred.2
  have hmax : (0 : Int) ≤ i64Max := by decide
  refine ⟨handles_kept h ⟨{ h.bounded with }, ⟨h.credit.windowed, Int.le_refl 0, Int.le_refl 0, hmax, hmax, Iff.rfl⟩,
    h.nonempty, h.offset, h.closing⟩ (fun u => by cases u <;> exact ⟨rfl, rfl⟩) closing_nil (fun hs => ⟨hs, by simp⟩)
    (fun p hp => mem_singleton.mp hp ▸ hpkt) (by simp) fun u => ?_, delivers_kept (fun hopen hcl => ?_)
    fun u => ?_⟩
  · cases u <;> simp only [Handled.owed, elim_some, total_nil, total_cons, Count.credit, hbs, hpkts,
      owed] <;> omega
  · exact nomatch hopen.symm.trans hcl
  · cases u <;> simp only [Handled.owed, elim_some, total_nil, total_cons, Count.credit, hbs, hpkts,
      owed] <;> omega

theorem flushDueCredits_spec (h : Sound s) :
    Settles s (fun _ => 0) (flushDueCredits role socketId (some s)) := by
  have htak := accounts_takeCredit role socketId h
  unfold flushDueCredits
  dsimp only
  split
  · generalize s.takeCredit = taken at htak ⊢
    obtain ⟨credit, s'⟩ := taken
    cases credit with
    | none => exact htak
    | some credit => exact htak
  · exact accounts_refl h

theorem sameFlow_shutdownDrained (s : SocketIo) : SameFlow s s.shutdownDrained := by
  unfold shutdownDrained
  split <;> exact ⟨rfl, rfl, rfl, rfl, rfl, rfl, rfl, rfl, id⟩

/-- The write side of a socket that stays is shut down. -/
theorem accounts_shutdownDrained (hacc : Settles s n ⟨some s', [], [], credits, []⟩) :
    Settles s n ⟨some s'.shutdownDrained, [], [], credits, []⟩ := by
  obtain ⟨⟨h₁, h₂, h₃, h₄, h₅, hkept⟩, h₆, h₇⟩ := hacc
  obtain ⟨hsd, hwin, hfly, hrd⟩ := hkept s' rfl
  have hsame := sameFlow_shutdownDrained s'
  have hst := steady_shutdownDrained hsd
  have howed : ∀ u, Handled.owed ⟨some s'.shutdownDrained, [], [], credits, []⟩ u =
      Handled.owed ⟨some s', [], [], credits, []⟩ u := by
    intro u
    simp only [Handled.owed, elim_some, (hsame.counts u).2.2]
  refine ⟨⟨h₁, h₂, fun u => (howed u).trans_le (h₃ u), h₄, h₅, fun s'' hs'' => ?_⟩,
    fun _ hopen u => (h₆ rfl hopen u).trans_eq (howed u).symm, fun s'' hs'' hopen hcl => ?_⟩
  · cases hs''
    exact ⟨hst.sound, fun u => (hsame.counts u).1.trans (hwin u), fun u => (hsame.counts u).2.1.trans (hfly u),
      fun hs => hrd (hst.reading ▸ hs)⟩
  · cases hs''
    exact h₇ s' rfl hopen (hst.isWriteClosed ▸ hcl)

/-- A socket that goes owes less. -/
theorem Handles.drop (hhan : Handles s n ⟨some s', [], [], credits, []⟩) :
    Handles s n ⟨none, [], [], credits, []⟩ := by
  refine { hhan with owed_le := fun u => ?_, kept := fun _ hs' => nomatch hs' }
  have hnonneg := (hhan.kept s' rfl).sound.owed_nonneg u
  have hle := hhan.owed_le u
  simp only [Handled.owed, elim_some, elim_none] at hle ⊢
  omega

theorem flushQueuedWrite_spec (h : Sound s) (writes : List WriteResult) :
    Settles s (fun _ => 0) (flushQueuedWrite role socketId (some s) writes) := by
  have hst := steady_flushOut h writes
  unfold flushQueuedWrite
  dsimp only
  split
  · exact accounts_refl h
  generalize s.flushOut writes = flushed at hst ⊢
  obtain ⟨result, s₁, written⟩ := flushed
  cases result with
  | error error => exact accounts_of_steady hst (accounts_dropped hst.sound role socketId (some error)) _
  | ok _ =>
    dsimp only at hst ⊢
    obtain ⟨taken, htak⟩ : ∃ taken, (if s₁.out.isEmpty && s₁.creditDue then s₁.takeCredit else (none, s₁)) = taken :=
      ⟨_, rfl⟩
    rw [htak]
    have hcred : Settles s₁ (fun _ => 0) ⟨some taken.2, [], [],
          taken.1.elim [] fun credit => [sendCredit role socketId credit.1 credit.2], []⟩ := by
      rw [← htak]
      split
      · exact accounts_takeCredit role socketId hst.sound
      · exact accounts_refl hst.sound
    split
    · exact accounts_of_steady hst ⟨hcred.1.drop, delivers_none⟩ _
    · split
      · exact accounts_of_steady hst (accounts_shutdownDrained hcred) _
      · exact accounts_of_steady hst hcred _

/-- **What a packet of the priority lane does.** -/
theorem receiveData_credit (h : d.Credit) :
    receiveData role socketId socket d =
      ⟨socket.map (·.applyDelivery ⟨min d.creditBytes windowBytes, min d.creditPackets windowPackets⟩),
        [], [], [], []⟩ := by
  obtain ⟨herr, hcl, hhalf⟩ := h.plain
  unfold receiveData
  simp only [herr, hcl, hhalf, h.decodeWindow, h.buffer, isSome_none, isSome_some, getD_none,
    Bool.false_eq_true, if_false, applyWindow, isEmpty_nil, Bool.not_false, Bool.and_self, if_true]

/-- Credit frees what it returns, and no more than is in flight. -/
theorem applyDelivery_spec (h : Sound s) (delivered : FlowWindow) (hbs : 0 < delivered.bytes)
    (hpkts : 0 < delivered.packets) (hbytesLe : delivered.bytes ≤ windowBytes)
    (hpacketsLe : delivered.packets ≤ windowPackets) :
    (s.applyDelivery delivered).inFlightBytes = max (s.inFlightBytes - delivered.bytes) 0 ∧
      (s.applyDelivery delivered).inFlightPackets = max (s.inFlightPackets - delivered.packets) 0 ∧
      Sound (s.applyDelivery delivered) := by
  obtain ⟨b₁, b₂, b₃, b₄, b₅, b₆⟩ := h.bounded
  unfold EternalTerminal.windowBytes at b₅ hbytesLe
  unfold EternalTerminal.windowPackets at b₆ hpacketsLe
  have hib : (s.applyDelivery delivered).inFlightBytes = max (s.inFlightBytes - delivered.bytes) 0 := by
    rw [applyDelivery, if_pos hbs, saturatingSub_eq (by unfold i64Max; omega) (by unfold i64Max; omega)]
  have hip : (s.applyDelivery delivered).inFlightPackets = max (s.inFlightPackets - delivered.packets) 0 := by
    have hsub : saturatingSub s.inFlightPackets delivered.packets = s.inFlightPackets - delivered.packets :=
      saturatingSub_eq (by unfold i64Max; omega) (by unfold i64Max; omega)
    rw [applyDelivery, if_pos hpkts, hsub]
  refine ⟨hib, hip, ⟨?_, ?_, ?_, ?_, b₅, b₆⟩, { h.credit with }, h.nonempty, h.offset, h.closing⟩
  · omega
  · omega
  · rw [hib]
    show max (s.inFlightBytes - delivered.bytes) 0 ≤ s.windowBytes
    omega
  · rw [hip]
    show max (s.inFlightPackets - delivered.packets) 0 ≤ s.windowPackets
    omega

theorem data_of_nonempty (h : d.buffer.getD [] ≠ []) (u : Count) : u.data d = u.buffer (d.buffer.getD []) := by
  cases u with
  | bytes => rfl
  | packets => exact if_neg fun hemp => h (List.isEmpty_iff.mp hemp)

theorem data_of_empty (h : d.buffer.getD [] = []) (u : Count) : u.data d = 0 := by
  cases u with
  | bytes => rw [Count.data, PortForwardData.bytes, h, length_nil, Int.natCast_zero]
  | packets => exact if_pos (List.isEmpty_iff.mpr h)

section
variable (header : Option Bytes)

theorem reception_of_window (s : SocketIo) (hwin : d.window = none) :
    Reception role socketId s d (handleData role socketId header (some s) d) := by
  obtain ⟨s₁, hs₁, hcases⟩ := handleData_cases role socketId header s d
  rw [hwin] at hs₁
  cases hs₁
  exact hcases

/-- **What a packet of the data lane does.** -/
theorem handleData_spec (h : Sound s) (hwin : d.window = none) :
    Handles s (·.data d) (handleData role socketId header (some s) d) ∧
      (d.Plain → Delivers s (·.data d) (handleData role socketId header (some s) d)) := by
  have hdata : ∀ u : Count, 0 ≤ u.data d := fun u => u.data_nonneg d
  have hcases := reception_of_window role socketId header s hwin
  generalize handleData role socketId header (some s) d = r at hcases ⊢
  cases hcases with
  | dropped => exact ⟨handles_none h closing_nil hdata, fun _ => delivers_none⟩
  | halfClosed _ hhalf => exact ⟨(peerHalfClose_spec h).mono hdata, fun hpl => by simp [hpl.2.2] at hhalf⟩
  | closed _ hcl => exact ⟨(peerClosed_spec role socketId h).1.mono hdata, fun hpl => by simp [hpl.2.1] at hcl⟩
  | empty _ hemp =>
    rw [funext (data_of_empty hemp)]
    exact ⟨(accounts_refl h).1, fun _ => (accounts_refl h).2⟩
  | admitted _ hne _ hadm =>
    rw [funext (data_of_nonempty hne)]
    obtain ⟨hhan, hdel⟩ := accounts_admission h hne hadm
    exact ⟨hhan, fun _ => hdel⟩

/-- A socket that was ended is not read any more. -/
theorem handleData_ends (socket : Option SocketIo) (h : d.Ends) (hwin : d.window = none)
    (hs' : (handleData role socketId header socket d).socket = some s') : s'.reading = false := by
  have hnot : ¬d.Open role := by
    rintro ⟨herr, -, hcl⟩
    rcases h with hsome | ⟨hclosed, -⟩
    · simp [herr] at hsome
    · simp [hclosed] at hcl
  cases socket with
  | none =>
    rw [handleData_none] at hs'
    cases hs'
  | some s =>
    have hcases := reception_of_window role socketId header s hwin
    generalize handleData role socketId header (some s) d = r at hcases hs'
    cases hcases with
    | dropped => cases hs'
    | halfClosed herr hhalf =>
      rcases h with hsome | ⟨-, hnone⟩
      · simp [herr] at hsome
      · simp [hnone] at hhalf
    | closed =>
      simp only [peerClosed] at hs'
      split at hs'
      · cases hs'
      · cases hs'
        rfl
    | empty hopen => exact absurd hopen hnot
    | admitted hopen => exact absurd hopen hnot

/-- A socket with room in its queue holds nothing back. -/
theorem held_handleData (hroom : s.out.length < outQueuePackets) (hwin : d.window = none) :
    (handleData role socketId header (some s) d).held = [] := by
  have hcases := reception_of_window role socketId header s hwin
  generalize handleData role socketId header (some s) d = r at hcases ⊢
  cases hcases with
  | halfClosed =>
    dsimp only [peerHalfClose]
    split <;> rfl
  | admitted _ _ _ hadm =>
    cases hadm with
    | held _ hfull => exact absurd hroom (Nat.not_lt_of_le hfull)
    | _ => rfl
  | _ => rfl

end

theorem held_serviceEvent (event : ReadySocket) (writes : List WriteResult) (turns : List ReadTurn) :
    (serviceEvent role socketId socket event writes turns).held = [] := by
  unfold serviceEvent readClosed
  repeat' split
  all_goals rfl

theorem held_flushQueuedWrite (writes : List WriteResult) :
    (flushQueuedWrite role socketId socket writes).held = [] := by
  dsimp only [flushQueuedWrite]
  repeat' split
  all_goals rfl

theorem held_flushDueCredits :
    (flushDueCredits role socketId socket).held = [] ∧ (flushDueCredits role socketId socket).written = [] := by
  unfold flushDueCredits
  repeat' split
  all_goals exact ⟨rfl, rfl⟩

/-- An operation of a worker on the socket its map holds. -/
structure Operates (n : Count → Int) (op : Option SocketIo → Handled) : Prop where
  none : op none = ⟨none, [], [], [], []⟩
  handles : ∀ s, Sound s → Handles s n (op (some s))
  held : ∀ s, s.out.length < outQueuePackets → (op (some s)).held = []

theorem operates_service (event : ReadySocket) (writes : List WriteResult) (turns : List ReadTurn) :
    Operates (fun _ => 0) fun socket => serviceEvent role socketId socket event writes turns :=
  ⟨rfl, fun _ h => (serviceEvent_spec role socketId h event writes turns).1,
    fun s _ => held_serviceEvent role socketId (some s) event writes turns⟩

theorem operates_flushQueuedWrite (writes : List WriteResult) :
    Operates (fun _ => 0) fun socket => flushQueuedWrite role socketId socket writes :=
  ⟨rfl, fun _ h => (flushQueuedWrite_spec role socketId h writes).1,
    fun s _ => held_flushQueuedWrite role socketId (some s) writes⟩

theorem operates_flushDueCredits :
    Operates (fun _ => 0) (flushDueCredits role socketId) :=
  ⟨rfl, fun _ h => (flushDueCredits_spec role socketId h).1, fun s _ => (held_flushDueCredits role socketId (some s)).1⟩

theorem operates_handleData (header : Option Bytes) (hwin : d.window = none) :
    Operates (·.data d) fun socket => handleData role socketId header socket d :=
  ⟨handleData_none role socketId header d, fun _ h => (handleData_spec role socketId header h hwin).1,
    fun _ hroom => held_handleData role socketId header hroom hwin⟩

/-- What becomes of the buffers held back. -/
structure Retried (s : SocketIo) (held : List Bytes) (s' : SocketIo) (held' : List Bytes) : Prop where
  sound : Sound s'
  sender : SameSender s s'
  isWriteClosed : s'.isWriteClosed = s.isWriteClosed
  le_owed : s.isWriteClosed = false → ∀ u : Count, s.owed u + total u.buffer held ≤ s'.owed u + total u.buffer held'
  subset : ∀ buffer ∈ held', buffer ∈ held

theorem flushHeldOf_none (held : List Bytes) : flushHeldOf none held = (none, []) := by
  induction held with
  | nil => rfl
  | cons buffer held ih => exact ih

theorem flushHeldOf_cons (s : SocketIo) (buffer : Bytes) (held : List Bytes) : flushHeldOf (some s) (buffer :: held) =
    if s.isWriteClosed then flushHeldOf (some s) held
    else match s.queueWrite buffer with
      | some s => flushHeldOf (some s) held
      | none => (some s, buffer :: held) := by
  unfold flushHeldOf
  rw [map_cons, flushHeld]
  dsimp only
  split
  · rfl
  cases s.queueWrite buffer with
  | none => simp
  | some s' => rfl

theorem flushHeldOf_spec (h : Sound s) {held : List Bytes} (hne : ∀ buffer ∈ held, buffer ≠ []) :
    ∃ s', (flushHeldOf (some s) held).1 = some s' ∧ Retried s held s' (flushHeldOf (some s) held).2 := by
  induction held generalizing s with
  | nil => exact ⟨s, rfl, h, .refl s, rfl, fun _ _ => Int.le_refl _, fun _ hb => hb⟩
  | cons buffer held ih =>
    have hpos : 0 < buffer.length := length_pos_iff.mpr (hne buffer mem_cons_self)
    have hne' : ∀ b ∈ held, b ≠ [] := fun b hb => hne b (mem_cons_of_mem _ hb)
    rw [flushHeldOf_cons]
    split
    next hcl =>
      obtain ⟨s', hs', hret⟩ := ih h hne'
      exact ⟨s', hs', { hret with
        le_owed := fun hopen => (nomatch hopen.symm.trans hcl)
        subset := fun b hb => mem_cons_of_mem _ (hret.subset b hb) }⟩
    split
    next s₁ hq =>
      obtain ⟨rfl, -⟩ := queueWrite_eq_some hq
      have hsend : SameSender s (s.push (wholeBuffer buffer)) := ⟨rfl, rfl, rfl, rfl, rfl, rfl⟩
      have hcl : (s.push (wholeBuffer buffer)).isWriteClosed = s.isWriteClosed := rfl
      obtain ⟨s', hs', h₁, h₂, h₃, h₄, h₅⟩ := ih (sound_push h (b := wholeBuffer buffer) hpos) hne'
      refine ⟨s', hs', h₁, hsend.trans h₂, h₃.trans hcl, fun hopen u => ?_, fun b hb => mem_cons_of_mem _ (h₅ b hb)⟩
      have hle := h₄ (hcl.trans hopen) u
      rw [owed_push, bytes_wholeBuffer] at hle
      rw [total_cons]
      omega
    · exact ⟨s, rfl, h, .refl s, rfl, fun _ _ => Int.le_refl _, fun _ hb => hb⟩

end EternalTerminal
