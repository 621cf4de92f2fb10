import EternalTerminal.Core.SealedStream

/-!
# Core — one direction of a session

A `BackedWriter`, the peer's `BackedReader` and the bytes between them, through any interleaving of
writes, deliveries, pops, disconnects and recoveries.  `Linked` is the simulation: the two handlers
stand `n` messages apart from one start, the reader has decoded the first `n` accepted messages,
and the bytes under way are the frames after them.

A recovery runs on a new transport, so the bytes still under way on the old one are gone after it.
A frame longer than a reader takes stops the stream there; the bytes behind it never decode, and
the reader stays where it is until a recovery.

Main result: `link_delivers_accepted`.
-/

namespace EternalTerminal
open Machine BackedWriter List

/-- Both ends of a direction, with what went through it. -/
structure Link where
  writer : BackedWriter
  reader : BackedReader
  /-- Emitted and not yet delivered. -/
  net : Bytes
  accepted : List Message
  popped : List Packet
  log : SealLog

namespace Link

def new (crypto : CryptoHandler) (writerConnected readerConnected : Bool) : Link where
  writer := BackedWriter.new crypto writerConnected
  reader := BackedReader.new crypto readerConnected
  net := []
  accepted := []
  popped := []
  log := []

variable (A : Aead)

def write (s : Link) (header : UInt8) (payload : Bytes) : Link :=
  match s.writer.writePacket (A.sodium s.log) header payload with
  | (.skipped, writer) => { s with writer := writer }
  | (.bufferedOnly, writer) =>
    { s with
      writer := writer
      accepted := s.accepted ++ [(header, payload)]
      log := s.log ++ [(payload, writer.crypto.nonce, writer.crypto.baseKey)] }
  | (.send frame, writer) =>
    { s with
      writer := writer
      net := s.net ++ frame
      accepted := s.accepted ++ [(header, payload)]
      log := s.log ++ [(payload, writer.crypto.nonce, writer.crypto.baseKey)] }

def pop (s : Link) : Link :=
  match s.reader.pop (A.sodium s.log) with
  | (.ok (.packet packet), reader) => { s with reader := reader, popped := s.popped ++ [packet] }
  | (_, reader) => { s with reader := reader }

def disconnect (s : Link) : Link :=
  { s with writer := s.writer.invalidate, reader := s.reader.invalidate, net := [] }

/-- A recovery on a new transport; nothing changes when either end refuses. -/
def recover (s : Link) : Link :=
  match s.writer.recover s.reader.sequence with
  | .error _ => s
  | .ok catchup =>
    match s.reader.revive (A.sodium s.log) catchup with
    | .error _ => s
    | .ok reader => { s with reader := reader, writer := s.writer.revive, net := [] }

end Link

/-- One step.  The writer's sequence is an `i64`. -/
inductive LinkStep (A : Aead) : Link → Link → Prop where
  | write (s : Link) (header : UInt8) (payload : Bytes) (h : s.writer.sequence < i64Max) :
      LinkStep A s (s.write A header payload)
  | feed (s : Link) (n : Nat) :
      LinkStep A s { s with reader := s.reader.feed (s.net.take n), net := s.net.drop n }
  | socketRead (s : Link) (capacity n : Nat) (h : (s.net.take n).length ≤ s.reader.offered capacity) :
      LinkStep A s
        { s with reader := s.reader.socketRead capacity (s.net.take n), net := s.net.drop n }
  | pop (s : Link) : LinkStep A s (s.pop A)
  | disconnect (s : Link) : LinkStep A s s.disconnect
  | recover (s : Link) : LinkStep A s (s.recover A)

/-- The frames a reader that has `n` messages still has to get. -/
def unreadStream (A : Aead) (c : CryptoHandler) (accepted : List Message) (n : Nat) : Bytes :=
  (A.frames (c.advance n) (accepted.drop n)).flatten

/-- The simulation: the reader has the first `n` accepted messages. -/
structure Linked (A : Aead) (c : CryptoHandler) (s : Link) (n : Nat) : Prop where
  sealedWriter : SealedWriter A c s.accepted s.writer
  sealedReader : SealedReader c n s.reader
  log_eq : s.log = sealedLog c s.accepted
  bound : (s.accepted.length : Int) ≤ i64Max
  le : n ≤ s.accepted.length
  delivered : s.popped ++ s.reader.replay = (s.accepted.take n).map Message.packet
  /-- The bytes under way continue the stream, or the next frame is too long for a reader. -/
  stream : s.reader.available ++ s.net =
      (if s.writer.connected then unreadStream A c s.accepted n else []) ∨
    ∃ m, s.accepted[n]? = some m ∧ ¬ m.Fits

variable {A : Aead} {c : CryptoHandler} {accepted : List Message} {n : Nat}

theorem unreadStream_append (hn : n ≤ accepted.length) (m : Message) :
    unreadStream A c (accepted ++ [m]) n =
      unreadStream A c accepted n ++ A.frame (c.advance accepted.length) m := by
  rw [unreadStream, unreadStream, drop_append_of_le_length hn, frames_append,
    flatten_append, ← CryptoHandler.advance_add, length_drop,
    Nat.add_sub_cancel' hn]
  simp [Aead.frames]

theorem unreadStream_cons {m : Message} (hn : accepted[n]? = some m) :
    unreadStream A c accepted n = A.frame (c.advance n) m ++ unreadStream A c accepted (n + 1) := by
  obtain ⟨hlt, hget⟩ := List.getElem?_eq_some_iff.mp hn
  rw [unreadStream, unreadStream, drop_eq_getElem_cons hlt, hget, Aead.frames, flatten_cons, CryptoHandler.advance_succ]

namespace Linked
variable {A : Aead} {c : CryptoHandler} {s : Link} {n : Nat}

theorem length_lt (h : Linked A c s n) : s.accepted.length < 256 ^ nonceLen := by
  have := h.bound
  unfold i64Max at this
  unfold nonceLen
  omega

theorem new (crypto : CryptoHandler) (wc rc : Bool) : Linked A crypto (Link.new crypto wc rc) 0 where
  sealedWriter := .new A crypto wc
  sealedReader := .new crypto rc
  log_eq := rfl
  bound := show (0 : Int) ≤ i64Max by decide
  le := le_rfl
  delivered := rfl
  stream := .inl (by cases wc <;> rfl)

section
variable (h : Linked A c s n)
include h

/-- **A write** adds its message to what was accepted, and its frame to the stream while the
transport is up. -/
theorem write (header : UInt8) (payload : Bytes) (hroom : s.writer.sequence < i64Max) :
    Linked A c (s.write A header payload) n := by
  have hlen := h.sealedWriter.sequence_eq
  cases hacc : s.writer.accepts payload.length with
  | false =>
    simp only [Link.write, writePacket_refused hacc]
    exact h
  | true =>
    obtain ⟨hw, hout, hconn⟩ := h.sealedWriter.writePacket s.log (m := (header, payload)) hacc
    have hlog := h.sealedWriter.log_append s.log (m := (header, payload)) hacc
    rw [← h.log_eq] at hlog
    have hbd : ((s.accepted ++ [(header, payload)]).length : Int) ≤ i64Max := by
      rw [length_append, length_singleton]
      push_cast
      omega
    have hle : n ≤ (s.accepted ++ [(header, payload)]).length := by
      rw [length_append]
      exact Nat.le_add_right_of_le h.le
    have hdel : s.popped ++ s.reader.replay =
        ((s.accepted ++ [(header, payload)]).take n).map Message.packet := by
      rw [take_append_of_le_length h.le]
      exact h.delivered
    unfold Link.write
    rcases hwr : s.writer.writePacket (A.sodium s.log) header payload with ⟨outcome, writer⟩
    rw [hwr] at hw hout hconn hlog
    dsimp only at hw hout hconn hlog
    have hstr := h.stream
    cases hc : s.writer.connected with
    | true =>
      rw [hc, if_pos rfl] at hout hstr
      subst hout
      refine ⟨hw, h.sealedReader, hlog.symm, hbd, hle, hdel, ?_⟩
      rw [show writer.connected = true from hconn.trans hc, if_pos rfl]
      rcases hstr with hs | hs
      · exact .inl (by rw [← append_assoc, hs, unreadStream_append h.le])
      · exact .inr (oversize_append hs _)
    | false =>
      rw [hc, if_neg Bool.false_ne_true] at hout hstr
      subst hout
      refine ⟨hw, h.sealedReader, hlog.symm, hbd, hle, hdel, ?_⟩
      rw [show writer.connected = false from hconn.trans hc, if_neg Bool.false_ne_true]
      exact hstr.imp_right fun hs => oversize_append hs _

/-- A delivery moves bytes from the transport to the reader. -/
theorem deliver {k : Nat} {reader : BackedReader} (hr : SealedReader c n reader)
    (hview : reader.view = s.reader.view.receive (s.net.take k)) :
    Linked A c { s with reader := reader, net := s.net.drop k } n := by
  have hrep : reader.replay = s.reader.replay := congrArg StreamReader.replay hview
  have hbs : reader.available = s.reader.available ++ s.net.take k :=
    congrArg StreamReader.bytes hview
  refine ⟨h.sealedWriter, hr, h.log_eq, h.bound, h.le, ?_, ?_⟩
  · dsimp only
    rw [hrep]
    exact h.delivered
  · dsimp only
    rw [hbs, append_assoc, take_append_drop]
    exact h.stream

/-- What the reader holds is part of the stream, unless the stream stopped. -/
theorem available_front :
    s.reader.available <+: (A.frames (c.advance n) (s.accepted.drop n)).flatten ∨
      ∃ m, s.accepted[n]? = some m ∧ ¬ m.Fits := by
  rcases h.stream with hs | hs
  · refine .inl ?_
    split at hs
    · exact ⟨s.net, hs⟩
    · rw [(append_eq_nil_iff.mp hs).1]
      exact List.nil_prefix
  · exact .inr hs

/-- What is behind the frame of the next message continues the stream after it. -/
theorem stream_next {m : Message} {rest : Bytes} (hm : s.accepted[n]? = some m) (hfit : m.Fits)
    (hspl : s.reader.available = A.frame (c.advance n) m ++ rest) :
    rest ++ s.net = if s.writer.connected then unreadStream A c s.accepted (n + 1) else [] := by
  rcases h.stream with hs | ⟨m', hm', hbig⟩
  · rw [hspl, append_assoc] at hs
    cases hc : s.writer.connected with
    | false =>
      rw [hc, if_neg Bool.false_ne_true] at hs
      have hlen := length_frame (A := A) (c.advance n) m
      rw [(append_eq_nil_iff.mp hs).1, length_nil] at hlen
      omega
    | true =>
      rw [hc, if_pos rfl, unreadStream_cons hm] at hs
      rw [if_pos rfl]
      exact append_cancel_left hs
  · obtain rfl : m = m' := Option.some.inj (hm.symm.trans hm')
    exact absurd hfit hbig

/-- A reader that took nothing holds what it held, or the next frame is too long for it. -/
theorem stream_same {bytes : Bytes} (hsame : (∀ m, s.accepted[n]? = some m → m.Fits) → bytes = s.reader.available) :
    bytes ++ s.net = (if s.writer.connected then unreadStream A c s.accepted n else []) ∨
      ∃ m, s.accepted[n]? = some m ∧ ¬ m.Fits := by
  by_cases hfit : ∀ m, s.accepted[n]? = some m → m.Fits
  · rw [hsame hfit]
    exact h.stream
  · push Not at hfit
    exact .inr hfit

/-- **A pop** answers the next message there is, or none. -/
theorem pop : ∃ n', Linked A c (s.pop A) n' := by
  unfold Link.pop
  rcases hp : s.reader.pop (A.sodium s.log) with ⟨result, reader⟩
  rcases BackedReader.pop_cases hp with ⟨rfl, rfl⟩ | ⟨packet, replay, hr, rfl, rfl⟩ | ⟨hc, hr, hlive⟩
  · exact ⟨n, h⟩
  · refine ⟨n, h.sealedWriter, h.sealedReader.withReplay replay, h.log_eq, h.bound, h.le, ?_, h.stream⟩
    dsimp only
    rw [append_assoc, singleton_append, ← hr]
    exact h.delivered
  rw [h.log_eq] at hlive
  rcases h.sealedReader.popLive hc h.length_lt h.available_front hlive with
    ⟨m, rest, hm, hfit, hspl, rfl, hsr, hrest, hrep, -⟩ | ⟨hno, hsr, bytes, hview, hsame⟩
  · -- the next message of the stream
    have hlt := (List.getElem?_eq_some_iff.mp hm).1
    refine ⟨n + 1, h.sealedWriter, hsr, h.log_eq, h.bound, hlt, ?_, .inl ?_⟩
    · have hdel := h.delivered
      rw [hr, append_nil] at hdel
      dsimp only
      rw [hrep, hr, append_nil, hdel, take_add_one, hm, Option.toList_some, map_append]
      rfl
    · dsimp only
      rw [hrest]
      exact h.stream_next hm hfit hspl
  · have hq : reader.replay = s.reader.replay := congrArg StreamReader.replay hview
    have hb : reader.available = bytes := congrArg StreamReader.bytes hview
    have hlink : Linked A c { s with reader := reader } n := by
      refine ⟨h.sealedWriter, hsr, h.log_eq, h.bound, h.le, ?_, ?_⟩
      · dsimp only
        rw [hq]
        exact h.delivered
      · dsimp only
        rw [hb]
        exact h.stream_same hsame
    rcases result with e | (packet | _)
    · exact ⟨n, hlink⟩
    · exact absurd rfl (hno packet)
    · exact ⟨n, hlink⟩

theorem disconnect : Linked A c s.disconnect n where
  sealedWriter := h.sealedWriter.invalidate
  sealedReader := h.sealedReader.invalidate
  log_eq := h.log_eq
  bound := h.bound
  le := h.le
  delivered := h.delivered
  stream := .inl rfl

/-- **A recovery that is served** revives both ends, with every accepted message delivered or
queued and nothing under way. -/
theorem recover_served {catchup : List Bytes} (hok : s.writer.recover s.reader.sequence = .ok catchup) :
    ∃ reader, s.reader.revive (A.sodium s.log) catchup = .ok reader ∧
      s.recover A = { s with reader := reader, writer := s.writer.revive, net := [] } ∧
      Linked A c (s.recover A) s.accepted.length ∧
      reader.available = [] ∧ reader.connected = true := by
  have hcat : catchup = (A.frames (c.advance n) (s.accepted.drop n)).map (List.drop 4) := by
    rw [h.sealedReader.sequence_eq] at hok
    exact h.sealedWriter.recover_ok hok
  obtain ⟨reader, hrev, hsr, havail, hconn, hrep⟩ := h.sealedReader.revive (A := A) h.le fun _ he => he
  rw [← h.log_eq, ← hcat] at hrev
  have heq : s.recover A = { s with reader := reader, writer := s.writer.revive, net := [] } := by
    simp only [Link.recover, hok, hrev]
  refine ⟨reader, hrev, heq, ?_, havail, hconn⟩
  rw [heq]
  refine ⟨h.sealedWriter.revive, hsr, h.log_eq, h.bound, le_rfl, ?_, .inl ?_⟩
  · dsimp only
    rw [hrep, ← append_assoc, h.delivered, ← map_append, take_append_drop, take_length]
  · dsimp only
    rw [havail, unreadStream, drop_length]
    exact (ite_self _).symm

theorem recover : ∃ n', Linked A c (s.recover A) n' := by
  cases hok : s.writer.recover s.reader.sequence with
  | error e =>
    have heq : s.recover A = s := by simp only [Link.recover, hok]
    exact ⟨n, by rwa [heq]⟩
  | ok catchup =>
    obtain ⟨_, -, -, hlink, -, -⟩ := h.recover_served hok
    exact ⟨_, hlink⟩

/-- **Every step keeps the simulation.** -/
theorem step {t : Link} (hs : LinkStep A s t) : ∃ n', Linked A c t n' := by
  cases hs with
  | write header payload hroom => exact ⟨n, h.write header payload hroom⟩
  | feed k =>
    obtain ⟨hr, hview⟩ := h.sealedReader.feed (s.net.take k)
    exact ⟨n, h.deliver hr hview⟩
  | socketRead capacity k hroom =>
    obtain ⟨hr, hview⟩ := h.sealedReader.socketRead hroom
    exact ⟨n, h.deliver hr hview⟩
  | pop => exact h.pop
  | disconnect => exact ⟨n, h.disconnect⟩
  | recover => exact h.recover

end

theorem run {wc rc : Bool} (hrun : Relation.ReflTransGen (LinkStep A) (Link.new c wc rc) s) :
    ∃ n, Linked A c s n :=
  reach_invariant (P := fun s => ∃ n, Linked A c s n) hrun ⟨0, Linked.new c wc rc⟩
    fun _ _ ⟨_, h⟩ hs => h.step hs

end Linked

/-- A connected reader with nothing received answers its queue and then waits. -/
theorem popAll_of_replay {S : Sodium} {v : StreamReader} (hc : v.connected = true)
    (hb : v.bytes = []) : v.popAll S = v.replay.map fun p => .ok (.packet p) := by
  obtain ⟨crypto, bytes, replay, sequence, connected⟩ := v
  dsimp only at hc hb
  subst hc hb
  induction replay with
  | nil => exact StreamReader.popAll_of_needMore rfl
  | cons packet replay ih =>
    have hp := StreamReader.pop_replay (S := S)
      (v := ⟨crypto, [], packet :: replay, sequence, true⟩) rfl rfl
    rw [StreamReader.popAll_of_result (by rw [hp]; rfl) (by rw [hp]; rfl)
      (by rw [hp]; simp [StreamReader.size]), hp, ih]
    rfl

/-- **A link delivers what was accepted.**  In every run, what the reader popped is a front part of what the writer
accepted; and whenever `recover` serves the reader, the revive succeeds, and what was popped before with what pops
from then on until more bytes are needed is everything accepted. -/
theorem link_delivers_accepted (A : Aead) (c : CryptoHandler) (wc rc : Bool) (s : Link)
    (hrun : Relation.ReflTransGen (LinkStep A) (Link.new c wc rc) s) :
    s.popped <+: s.accepted.map Message.packet ∧
    ∀ catchup, s.writer.recover s.reader.sequence = .ok catchup →
      ∃ reader, s.reader.revive (A.sodium s.log) catchup = .ok reader ∧
        s.recover A = { s with reader := reader, writer := s.writer.revive, net := [] } ∧
        ∃ left, reader.popAll (A.sodium s.log) = left.map (fun p => .ok (.packet p)) ∧
          s.popped ++ left = s.accepted.map Message.packet := by
  obtain ⟨n, h⟩ := Linked.run hrun
  refine ⟨?_, fun catchup hok => ?_⟩
  · refine (prefix_append s.popped s.reader.replay).trans ?_
    rw [h.delivered]
    exact (List.take_prefix n _).map _
  · obtain ⟨reader, hrev, heq, hlinked, havail, hconn⟩ := h.recover_served hok
    refine ⟨reader, hrev, heq, reader.replay, ?_, ?_⟩
    · rw [heq] at hlinked
      rw [BackedReader.popAll_refines hlinked.sealedReader.wellFormed]
      exact popAll_of_replay hconn havail
    · have hdel := hlinked.delivered
      rw [heq, take_length] at hdel
      exact hdel

/-- A packet written while disconnected reaches the reader by a recovery. -/
theorem link_delivers_after_outage :
    ∃ s, Relation.ReflTransGen (LinkStep Aead.plain) (Link.new (CryptoHandler.new zeroKey 0) true true) s ∧
      s.accepted = [(7, [1]), (8, [2])] ∧ s.popped <+: s.accepted.map Message.packet := by
  have hrun := ((((Relation.ReflTransGen.single (LinkStep.write (A := Aead.plain)
    (Link.new (CryptoHandler.new zeroKey 0) true true) 7 [1] (by decide))).tail (.disconnect _)).tail
    (.write _ 8 [2] (by decide))).tail (.recover _)).tail (.pop _)
  exact ⟨_, hrun, by decide +kernel, (link_delivers_accepted _ _ _ _ _ hrun).1⟩

end EternalTerminal
