import EternalTerminal.Core.Link
import EternalTerminal.Core.TerminalBuffer
import EternalTerminal.Net.Recovery

/-!
# Server — client input across recoveries

The packets a client sends, as the terminal bridge of its session gets them.  The bridge reads the
session's connection whenever it likes.  A recovery takes a snapshot of that connection, runs its
handshake on the copy without a lock, and installs the copy; the bridge does not stop for it.

Main results: `input_handed_in_order`, `input_handed_twice`.
-/

namespace EternalTerminal
open Machine BackedWriter List
open Function (update update_of_ne update_self)

/-! ### Reading from a socket -/

/-- What one `recv` on a non-blocking socket answers. -/
inductive RecvOutcome where
  | count (n : Nat)
  | wouldBlock
  | failed

/-- One `recv`, and the capacity of the read buffer it found. -/
structure RecvCall where
  capacity : Nat
  outcome : RecvOutcome

/-- `try_read`: pop, and read from the socket at most `rounds` times when the pop needs more.  The
queue is what the socket holds; a socket with no answer left would block. -/
def tryRead (S : Sodium) :
    Nat → List RecvCall → BackedReader → Bytes → Except ConnError (Option Packet) × BackedReader × Bytes
  | rounds, calls, reader, queue =>
    match reader.pop S with
    | (.error e, reader) => (.error (.read e), reader, queue)
    | (.ok (.packet packet), reader) => (.ok (some packet), reader, queue)
    | (.ok .needMore, reader) =>
      match rounds with
      | 0 => (.ok none, reader, queue)
      | rounds + 1 =>
        let call := calls.headD ⟨0, .wouldBlock⟩
        match call.outcome with
        | .wouldBlock => (.ok none, reader.prepareSocketRead call.capacity, queue)
        | .failed =>
          (.error (.io .other "recv failed"), reader.prepareSocketRead call.capacity, queue)
        | .count n =>
          let bytes := queue.take (min n (reader.offered call.capacity))
          if bytes.isEmpty then
            (.error (.io .unexpectedEof ""), reader.prepareSocketRead call.capacity, queue)
          else
            tryRead S rounds calls.tail (reader.socketRead call.capacity bytes)
              (queue.drop bytes.length)

/-- Terminal input that a session with an output flow cannot look into: neither reader of a
`TerminalBuffer` decodes it. -/
def unreadableInput (packet : Packet) : Bool :=
  packet.header == terminalBuffer && (decodeTerminalBuffer packet.payload).isNone &&
    (TerminalBuffer.decode packet.payload).isNone

/-! ### The system -/

/-- How far a recovery is. -/
inductive InputPhase where
  | asked
  | served (catchup : List Bytes)
  | revived (count : Nat)
  | proved

/-- A recovery under way: the copy it works on, and what the bridge had when the copy was taken. -/
structure InputCandidate where
  conn : Connection
  phase : InputPhase
  handed : List Packet

/-- A client's writer, the transports it has written on, by the id of their socket, and the session that reads them;
`wire` is what was written and not read. -/
structure ClientInput where
  client : BackedWriter
  clientOn : Nat
  sent : List Message
  log : SealLog
  wire : Nat → Bytes
  nextStream : Nat
  session : Connection
  candidate : Option InputCandidate
  handed : List Packet

/-- A step of the client, the bridge or a recovery. -/
inductive InputEvent where
  | clientWrite (header : UInt8) (payload : Bytes)
  /-- The client's transport breaks; only `kept` of the bytes under way will arrive. -/
  | clientDisconnect (kept : Nat)
  | bridgeRead (calls : List RecvCall)
  | serverDisconnect
  | snapshot
  /-- The client answers the exchange; `adopts` when its own side of it succeeds. -/
  | clientAnswer (adopts : Bool)
  | serverRevive
  | authenticatePeer (counts : List Nat)
  | install
  | abort

namespace ClientInput

/-- A session that just started; `toClient` is the handler of its own direction. -/
def new (crypto toClient : CryptoHandler) : ClientInput where
  client := BackedWriter.new crypto true
  clientOn := 0
  sent := []
  log := []
  wire _ := []
  nextStream := 1
  session := ⟨⟨0, false⟩, BackedWriter.new toClient true, BackedReader.new crypto true⟩
  candidate := none
  handed := []

/-- The client's writes reach transport `t`. -/
def writing (s : ClientInput) (t : Nat) : Bool := s.client.connected && decide (s.clientOn = t)

/-- The client took a packet. -/
def accept (s : ClientInput) (client : BackedWriter) (m : Message) : ClientInput :=
  { s with
    client := client
    sent := s.sent ++ [m]
    log := s.log ++ [(m.2, client.crypto.nonce, client.crypto.baseKey)] }

variable (A : Aead)

def clientWrite (s : ClientInput) (header : UInt8) (payload : Bytes) : ClientInput :=
  match s.client.writePacket (A.sodium s.log) header payload with
  | (.skipped, client) => { s with client := client }
  | (.bufferedOnly, client) => s.accept client (header, payload)
  | (.send frame, client) =>
    { s.accept client (header, payload) with
      wire := update s.wire s.clientOn (s.wire s.clientOn ++ frame) }

def clientDisconnect (s : ClientInput) (kept : Nat) : ClientInput :=
  { s with
    client := s.client.invalidate
    wire := update s.wire s.clientOn ((s.wire s.clientOn).take kept) }

/-- `ActiveSession::try_read_packet`.  A packet the session cannot look into is consumed and not
handed on. -/
def bridgeRead (observes : Bool) (s : ClientInput) (calls : List RecvCall) : ClientInput :=
  let on := s.session.stream.id
  match tryRead (A.sodium s.log) 4 calls s.session.reader (s.wire on) with
  | (.error _, reader, queue) =>
    { s with
      session := { s.session with reader := reader.invalidate }
      wire := update s.wire on queue }
  | (.ok none, reader, queue) =>
    { s with
      session := { s.session with reader := reader }
      wire := update s.wire on queue }
  | (.ok (some packet), reader, queue) =>
    { s with
      session := { s.session with reader := reader }
      wire := update s.wire on queue
      handed := if observes && unreadableInput packet then s.handed else s.handed ++ [packet] }

/-- The first phase of a recovery; the permit keeps it to one at a time. -/
def snapshot (s : ClientInput) : ClientInput :=
  match s.candidate with
  | some _ => s
  | none =>
    { s with
      nextStream := s.nextStream + 1
      candidate := some
        { conn := s.session.prepareRecoveryCandidate ⟨s.nextStream, false⟩
          phase := .asked
          handed := s.handed } }

def clientAnswer (s : ClientInput) (adopts : Bool) : ClientInput :=
  match s.candidate with
  | some ⟨conn, .asked, handed⟩ =>
    match s.client.recover conn.reader.sequence with
    | .error _ => s
    | .ok catchup =>
      let s := { s with candidate := some ⟨conn, .served catchup, handed⟩ }
      if adopts then { s with client := s.client.revive, clientOn := conn.stream.id } else s
  | _ => s

def serverRevive (s : ClientInput) : ClientInput :=
  match s.candidate with
  | some ⟨conn, .served catchup, handed⟩ =>
    match conn.revive (A.sodium s.log) catchup with
    | (.error _, _) => { s with candidate := none }
    | (.ok count, conn) => { s with candidate := some ⟨conn, .revived count, handed⟩ }
  | _ => s

/-- `authenticate_peer`, which only a recovery that revived nothing runs. -/
def authenticatePeer (s : ClientInput) (counts : List Nat) : ClientInput :=
  match s.candidate with
  | some ⟨conn, .revived 0, handed⟩ =>
    let on := conn.stream.id
    match readLivePacket (A.sodium s.log) counts conn.reader (s.wire on) with
    | (.error _, _, _) => { s with candidate := none }
    | (.ok packet, reader, queue) =>
      { s with
        wire := update s.wire on queue
        candidate := some ⟨{ conn with reader := reader.unread packet }, .proved, handed⟩ }
  | _ => s

def install (s : ClientInput) : ClientInput :=
  match s.candidate with
  | some ⟨conn, .revived _, _⟩ => { s with session := conn, candidate := none }
  | some ⟨conn, .proved, _⟩ => { s with session := conn, candidate := none }
  | _ => s

def apply (observes : Bool) (s : ClientInput) : InputEvent → ClientInput
  | .clientWrite header payload => s.clientWrite A header payload
  | .clientDisconnect kept => s.clientDisconnect kept
  | .bridgeRead calls => s.bridgeRead A observes calls
  | .serverDisconnect => { s with session := s.session.disconnect }
  | .snapshot => s.snapshot
  | .clientAnswer adopts => s.clientAnswer adopts
  | .serverRevive => s.serverRevive A
  | .authenticatePeer counts => s.authenticatePeer A counts
  | .install => s.install
  | .abort => { s with candidate := none }

end ClientInput

/-- One allowed step.  The client's sequence is an `i64`. -/
inductive InputStep (A : Aead) (observes : Bool) (allowed : ClientInput → InputEvent → Prop) :
    ClientInput → ClientInput → Prop where
  | step (s : ClientInput) (e : InputEvent) (hroom : s.client.sequence < i64Max) (h : allowed s e) :
      InputStep A observes allowed s (s.apply A observes e)

/-- Nothing is handed out between a snapshot and its install, and the session can look into what the
client types. -/
def HandsOutOnce (observes : Bool) (s : ClientInput) : InputEvent → Prop
  | .clientWrite header payload => observes = true → unreadableInput ⟨false, header, payload⟩ = false
  | .install => ∀ candidate ∈ s.candidate, s.handed = candidate.handed
  | _ => True

instance (observes : Bool) (s : ClientInput) : ∀ e, Decidable (HandsOutOnce observes s e)
  | .clientWrite header payload =>
    inferInstanceAs (Decidable (observes = true → unreadableInput ⟨false, header, payload⟩ = false))
  | .install => inferInstanceAs (Decidable (∀ candidate ∈ s.candidate, s.handed = candidate.handed))
  | .clientDisconnect _ | .bridgeRead _ | .serverDisconnect | .snapshot | .clientAnswer _
  | .serverRevive | .authenticatePeer _ | .abort => inferInstanceAs (Decidable True)

/-! ### A reader on a transport -/

/-- `bytes` is a front part of the frames after the `k`-th, and all of them while they are being
written. -/
def OnStream (A : Aead) (c : CryptoHandler) (sent : List Message) (k : Nat) (bytes : Bytes)
    (writing : Bool) : Prop :=
  bytes <+: unreadStream A c sent k ∧ (writing = true → bytes = unreadStream A c sent k)

namespace OnStream
variable {A : Aead} {c : CryptoHandler} {sent : List Message} {k : Nat} {bytes : Bytes} {writing : Bool}

theorem start (A : Aead) (c : CryptoHandler) (sent : List Message) (writing : Bool) :
    OnStream A c sent sent.length [] writing := by
  refine ⟨List.nil_prefix, fun _ => ?_⟩
  rw [unreadStream, drop_length]
  rfl

theorem cut (h : OnStream A c sent k bytes writing) {bytes' : Bytes} (hb : bytes' <+: bytes) :
    OnStream A c sent k bytes' false :=
  ⟨hb.trans h.1, fun hw => nomatch hw⟩

/-- One more packet, on this transport or elsewhere. -/
theorem write (h : OnStream A c sent k bytes writing) (hk : k ≤ sent.length) (m : Message) :
    OnStream A c (sent ++ [m]) k
      (if writing then bytes ++ A.frame (c.advance sent.length) m else bytes) writing := by
  unfold OnStream
  rw [unreadStream_append hk]
  cases writing with
  | true =>
    rw [if_pos rfl, h.2 rfl]
    exact ⟨prefix_rfl, fun _ => rfl⟩
  | false =>
    exact ⟨h.1.trans (prefix_append _ _), fun hw => nomatch hw⟩

end OnStream

/-- `r` has the first `n` packets of the stream, and while it is connected the bytes it holds and
those in `queue` come next; or the next frame is too long for it. -/
structure ReaderAt (A : Aead) (c : CryptoHandler) (sent : List Message) (n : Nat) (r : BackedReader)
    (queue : Bytes) (writing : Bool) : Prop where
  sealedReader : SealedReader c n r
  le : n ≤ sent.length
  stream : r.connected = true →
    OnStream A c sent n (r.available ++ queue) writing ∨ ∃ m, sent[n]? = some m ∧ ¬ m.Fits

/-- The packet of an answer, if it has one. -/
def answered : PopResult → List Packet
  | .ok (.packet packet) => [packet]
  | _ => []

/-- What was handed out and what is queued are the first `n` packets. -/
def Accounts (sent : List Message) (n : Nat) (handed replay : List Packet) : Prop :=
  handed ++ replay = (sent.take n).map Message.packet

namespace ReaderAt
variable {A : Aead} {c : CryptoHandler} {sent : List Message} {n : Nat} {r : BackedReader}
  {queue : Bytes} {writing : Bool}

theorem of_disconnected (h : SealedReader c n r) (hn : n ≤ sent.length) (hc : r.connected = false) :
    ReaderAt A c sent n r queue writing :=
  ⟨h, hn, fun hc' => absurd (hc'.symm.trans hc) (by decide)⟩

theorem invalidate (h : ReaderAt A c sent n r queue writing) :
    ReaderAt A c sent n r.invalidate queue writing :=
  of_disconnected h.sealedReader.invalidate h.le rfl

variable {r' : BackedReader} {bytes : Bytes} {result : PopResult}
variable (h : ReaderAt A c sent n r queue writing)
include h

/-- Another reader with the same contents. -/
theorem of_view (hwf : r'.WellFormed) (hview : r'.view = r.view) : ReaderAt A c sent n r' queue writing := by
  have hconn : r'.connected = r.connected := congrArg StreamReader.connected hview
  have hbs : r'.available = r.available := congrArg StreamReader.bytes hview
  refine ⟨⟨hwf, (congrArg StreamReader.sequence hview).trans h.sealedReader.sequence_eq,
    (congrArg StreamReader.crypto hview).trans h.sealedReader.crypto_eq⟩, h.le, ?_⟩
  rw [hconn, hbs]
  exact h.stream

/-- Bytes move from the socket to the reader. -/
theorem receive (hq : bytes <+: queue) (hr : SealedReader c n r') (hview : r'.view = r.view.receive bytes) :
    ReaderAt A c sent n r' (queue.drop bytes.length) writing := by
  have hconn : r'.connected = r.connected := congrArg StreamReader.connected hview
  have hbs : r'.available = r.available ++ bytes := congrArg StreamReader.bytes hview
  refine ⟨hr, h.le, ?_⟩
  rw [hconn, hbs, append_assoc, prefix_iff_eq_append.mp hq]
  exact h.stream

theorem cut {queue' : Bytes} (hq : queue' <+: queue) : ReaderAt A c sent n r queue' false := by
  refine { h with stream := fun hc => ?_ }
  rcases h.stream hc with hs | hbig
  · exact .inl (hs.cut ((prefix_append_right_inj _).mpr hq))
  · exact .inr hbig

theorem write (m : Message) :
    ReaderAt A c (sent ++ [m]) n r
      (if writing then queue ++ A.frame (c.advance sent.length) m else queue) writing := by
  refine ⟨h.sealedReader, h.le.trans (by rw [length_append]; exact Nat.le_add_right _ _), fun hc => ?_⟩
  rcases h.stream hc with hs | hbig
  · have hw := hs.write h.le m
    refine .inl ?_
    split
    next hwr =>
      rw [if_pos hwr, append_assoc] at hw
      exact hw
    next hwr =>
      rw [if_neg hwr] at hw
      exact hw
  · exact .inr (oversize_append hbig [m])

/-- The bytes a connected reader holds are part of the stream. -/
theorem available_front (hc : r.connected = true) :
    r.available <+: (A.frames (c.advance n) (sent.drop n)).flatten ∨
      ∃ m, sent[n]? = some m ∧ ¬ m.Fits :=
  (h.stream hc).imp_left fun hs => (prefix_append _ _).trans hs.1

/-- The bytes behind the next frame come after it. -/
theorem stream_next (hc : r.connected = true) {m : Message} {rest : Bytes} (hm : sent[n]? = some m) (hfit : m.Fits)
    (hspl : r.available = A.frame (c.advance n) m ++ rest) : OnStream A c sent (n + 1) (rest ++ queue) writing := by
  rcases h.stream hc with ⟨hpre, heq⟩ | ⟨m', hm', hbig⟩
  · rw [hspl, unreadStream_cons hm, append_assoc] at hpre heq
    exact ⟨(prefix_append_right_inj _).mp hpre, fun hw => append_cancel_left (heq hw)⟩
  · obtain rfl : m = m' := Option.some.inj (hm.symm.trans hm')
    exact absurd hfit hbig

/-- The frame that stops a reader still does when an answer moved its bytes. -/
theorem stream_same (hsame : (∀ m, sent[n]? = some m → m.Fits) → bytes = r.available) (hc : r.connected = true) :
    OnStream A c sent n (bytes ++ queue) writing ∨ ∃ m, sent[n]? = some m ∧ ¬ m.Fits := by
  by_cases hfit : ∀ m, sent[n]? = some m → m.Fits
  · rw [hsame hfit]
    exact h.stream hc
  · push Not at hfit
    exact .inr hfit

/-- **A live pop** answers the next packet or none. -/
theorem popLive (hsent : sent.length < 256 ^ nonceLen) (hc : r.connected = true)
    (hp : r.popLive (A.sodium (sealedLog c sent)) = (result, r')) :
    r'.replay = r.replay ∧ r'.connected = true ∧
      ((∃ m, sent[n]? = some m ∧ result = .ok (.packet m.packet) ∧ ReaderAt A c sent (n + 1) r' queue writing) ∨
        (∀ p, result ≠ .ok (.packet p)) ∧ ReaderAt A c sent n r' queue writing) := by
  rcases h.sealedReader.popLive hc hsent (h.available_front hc) hp with
    ⟨m, rest, hm, hfit, hspl, hres, hsr, hrest, hrep, hconn⟩ | ⟨hno, hsr, bytes, hview, hsame⟩
  · have hlt := (List.getElem?_eq_some_iff.mp hm).1
    refine ⟨hrep, hconn, .inl ⟨m, hm, hres, hsr, hlt, fun _ => .inl ?_⟩⟩
    rw [hrest]
    exact h.stream_next hc hm hfit hspl
  · have hbs : r'.available = bytes := congrArg StreamReader.bytes hview
    refine ⟨congrArg StreamReader.replay hview, (congrArg StreamReader.connected hview).trans hc,
      .inr ⟨hno, hsr, h.le, fun _ => ?_⟩⟩
    rw [hbs]
    exact h.stream_same hsame hc

/-- **A pop** hands out the oldest queued packet, the next of the stream, or none. -/
theorem pop (hsent : sent.length < 256 ^ nonceLen) (hp : r.pop (A.sodium (sealedLog c sent)) = (result, r')) :
    ∃ n', ReaderAt A c sent n' r' queue writing ∧
      ∀ handed, Accounts sent n handed r.replay → Accounts sent n' (handed ++ answered result) r'.replay := by
  rcases BackedReader.pop_cases hp with ⟨rfl, rfl⟩ | ⟨packet, replay, hr, rfl, rfl⟩ | ⟨hc, hr, hlive⟩
  · exact ⟨n, h, fun handed ha => by simpa [answered] using ha⟩
  · refine ⟨n, ⟨h.sealedReader.withReplay replay, h.le, h.stream⟩, fun handed ha => ?_⟩
    rw [Accounts, hr] at ha
    rwa [Accounts, answered, append_assoc, singleton_append]
  obtain ⟨hrep, -, ⟨m, hm, rfl, hat⟩ | ⟨hno, hat⟩⟩ := h.popLive hsent hc hlive
  · refine ⟨n + 1, hat, fun handed ha => ?_⟩
    rw [Accounts, hr, append_nil] at ha
    rw [Accounts, hrep, hr, answered, append_nil, ha, take_add_one, hm, Option.toList_some, map_append]
    rfl
  · refine ⟨n, hat, fun handed ha => ?_⟩
    have hnone : answered result = [] := by
      rcases result with e | (packet | _)
      · rfl
      · exact absurd rfl (hno packet)
      · rfl
    rwa [hnone, hrep, append_nil]

end ReaderAt

/-! ### Whole reads -/

section
variable {A : Aead} {c : CryptoHandler} {sent : List Message} {n : Nat} {r : BackedReader}
  {queue : Bytes} {writing : Bool}

/-- The packet a read hands out, if it has one. -/
def readPackets : Except ConnError (Option Packet) → List Packet
  | .ok (some packet) => [packet]
  | _ => []

/-- **`try_read` hands out at most one packet, the next one.**  The induction is on the rounds. -/
theorem tryRead_spec (hsent : sent.length < 256 ^ nonceLen) (rounds : Nat) (calls : List RecvCall)
    (h : ReaderAt A c sent n r queue writing) :
    ∃ n', ReaderAt A c sent n' (tryRead (A.sodium (sealedLog c sent)) rounds calls r queue).2.1
        (tryRead (A.sodium (sealedLog c sent)) rounds calls r queue).2.2 writing ∧
      ∀ handed, Accounts sent n handed r.replay →
        Accounts sent n'
          (handed ++ readPackets (tryRead (A.sodium (sealedLog c sent)) rounds calls r queue).1)
          (tryRead (A.sodium (sealedLog c sent)) rounds calls r queue).2.1.replay := by
  induction rounds generalizing calls n r queue with
  | zero =>
    unfold tryRead
    rcases hp : r.pop (A.sodium (sealedLog c sent)) with ⟨e | (packet | _), r'⟩ <;> exact h.pop hsent hp
  | succ rounds ih =>
    unfold tryRead
    rcases hp : r.pop (A.sodium (sealedLog c sent)) with ⟨e | (packet | _), r'⟩
    · exact h.pop hsent hp
    · exact h.pop hsent hp
    · -- the pop needs more: one read from the socket
      obtain ⟨n', hat, hacc⟩ := h.pop hsent hp
      generalize calls.headD ⟨0, .wouldBlock⟩ = call
      obtain ⟨capacity, outcome⟩ := call
      obtain ⟨hwf, hview, -⟩ := BackedReader.prepareSocketRead_spec hat.sealedReader.wellFormed capacity
      have hprep := hat.of_view hwf hview
      have hrep : (r'.prepareSocketRead capacity).replay = r'.replay :=
        congrArg StreamReader.replay hview
      have hkept : ∀ handed, Accounts sent n handed r.replay →
          Accounts sent n' (handed ++ []) (r'.prepareSocketRead capacity).replay := by
        intro handed ha
        rw [hrep]
        exact hacc handed ha
      cases outcome with
      | wouldBlock => exact ⟨n', hprep, hkept⟩
      | failed => exact ⟨n', hprep, hkept⟩
      | count k =>
        dsimp only
        split
        · exact ⟨n', hprep, hkept⟩
        have hroom : (queue.take (min k (r'.offered capacity))).length ≤ r'.offered capacity := by
          rw [length_take]
          omega
        obtain ⟨hsr, hrview⟩ := hat.sealedReader.socketRead hroom
        have hrecv := hat.receive (List.take_prefix _ _) hsr hrview
        obtain ⟨n'', hend, hacc'⟩ := ih calls.tail hrecv
        have hsame : (r'.socketRead capacity (queue.take (min k (r'.offered capacity)))).replay =
            r'.replay := congrArg StreamReader.replay hrview
        refine ⟨n'', hend, fun handed ha => hacc' handed ?_⟩
        rw [hsame]
        simpa [answered] using hacc handed ha

/-- **`read_live_packet_until` answers the next packet**, and leaves the queue of the reader. -/
theorem readLivePacket_spec (hsent : sent.length < 256 ^ nonceLen) (counts : List Nat)
    (h : ReaderAt A c sent n r queue writing) (hc : r.connected = true) {packet : Packet}
    {r' : BackedReader} {queue' : Bytes}
    (hok : readLivePacket (A.sodium (sealedLog c sent)) counts r queue = (.ok packet, r', queue')) :
    ∃ m, sent[n]? = some m ∧ packet = m.packet ∧ r'.replay = r.replay ∧
      ReaderAt A c sent (n + 1) r' queue' writing := by
  induction counts generalizing r queue with
  | nil =>
    unfold readLivePacket at hok
    rcases hp : r.popLive (A.sodium (sealedLog c sent)) with ⟨e | (p | _), r₁⟩ <;> rw [hp] at hok <;> cases hok
    obtain ⟨hrep, -, ⟨m, hm, hres, hat⟩ | ⟨hno, -⟩⟩ := h.popLive hsent hc hp
    · cases hres
      exact ⟨m, hm, rfl, hrep, hat⟩
    · exact absurd rfl (hno _)
  | cons count counts ih =>
    unfold readLivePacket at hok
    rcases hp : r.popLive (A.sodium (sealedLog c sent)) with ⟨e | (p | _), r₁⟩ <;> rw [hp] at hok <;>
      obtain ⟨hrep, hconn, ⟨m, hm, hres, hat⟩ | ⟨hno, hat⟩⟩ := h.popLive hsent hc hp
    · cases hok
    · cases hok
    · cases hok
      cases hres
      exact ⟨m, hm, rfl, hrep, hat⟩
    · exact absurd rfl (hno _)
    · cases hres
    · dsimp only at hok
      split at hok
      · cases hok
      obtain ⟨hsr, hview⟩ := hat.sealedReader.feed (queue.take (min count 8192))
      have hrecv := hat.receive (List.take_prefix _ _) hsr hview
      obtain ⟨m, hm, hpkt, hr', hat'⟩ := ih hrecv
        ((congrArg StreamReader.connected hview).trans hconn) hok
      exact ⟨m, hm, hpkt, hr'.trans ((congrArg StreamReader.replay hview).trans hrep), hat'⟩

end

/-! ### What every step keeps -/

/-- A reader that has the first `n` packets, handed out or queued. -/
structure HasRead (c : CryptoHandler) (sent : List Message) (n : Nat) (r : BackedReader)
    (handed : List Packet) : Prop where
  sealedReader : SealedReader c n r
  le : n ≤ sent.length
  accounts : Accounts sent n handed r.replay

theorem Accounts.append {sent : List Message} {n : Nat} {handed replay : List Packet}
    (h : Accounts sent n handed replay) (hn : n ≤ sent.length) (m : Message) :
    Accounts (sent ++ [m]) n handed replay := by
  rw [Accounts, take_append_of_le_length hn]
  exact h

theorem HasRead.append {c : CryptoHandler} {sent : List Message} {n : Nat} {r : BackedReader}
    {handed : List Packet} (h : HasRead c sent n r handed) (m : Message) :
    HasRead c (sent ++ [m]) n r handed :=
  ⟨h.sealedReader, by rw [length_append]; exact h.le.trans (Nat.le_add_right _ _),
    h.accounts.append h.le m⟩

/-- A recovery at its phase: `bytes` are unread on its transport, which the client is on or not. -/
def PhaseInv (A : Aead) (c : CryptoHandler) (sent : List Message) (bytes : Bytes) (connected on : Bool)
    (conn : Connection) (handed : List Packet) : InputPhase → Prop
  | .asked => on = false ∧ bytes = [] ∧ ∃ n, HasRead c sent n conn.reader handed
  | .served catchup => ∃ n k, HasRead c sent n conn.reader handed ∧ n ≤ k ∧ k ≤ sent.length ∧
      catchup = (A.frames (c.advance n) ((sent.take k).drop n)).map (List.drop 4) ∧
      OnStream A c sent k bytes (connected && on)
  | .revived _ => conn.reader.connected = true ∧
      ∃ n, ReaderAt A c sent n conn.reader bytes (connected && on) ∧
        Accounts sent n handed conn.reader.replay
  | .proved => ∃ n, ReaderAt A c sent n conn.reader bytes (connected && on) ∧
      Accounts sent n handed conn.reader.replay

namespace PhaseInv
variable {A : Aead} {c : CryptoHandler} {sent : List Message} {bytes : Bytes} {connected on : Bool}
  {conn : Connection} {handed : List Packet} {phase : InputPhase}
variable (h : PhaseInv A c sent bytes connected on conn handed phase)
include h

theorem write (m : Message) :
    PhaseInv A c (sent ++ [m])
      (if connected && on then bytes ++ A.frame (c.advance sent.length) m else bytes) connected on
      conn handed phase := by
  cases phase with
  | asked =>
    obtain ⟨rfl, rfl, n, hread⟩ := h
    exact ⟨rfl, by rw [Bool.and_false]; rfl, n, hread.append m⟩
  | served catchup =>
    obtain ⟨n, k, hread, hnk, hk, hcat, hstr⟩ := h
    refine ⟨n, k, hread.append m, hnk, ?_, ?_, hstr.write hk m⟩
    · rw [length_append]
      exact hk.trans (Nat.le_add_right _ _)
    · rw [take_append_of_le_length hk]
      exact hcat
  | revived count =>
    obtain ⟨hc, n, hat, hacc⟩ := h
    exact ⟨hc, n, hat.write m, hacc.append hat.le m⟩
  | proved =>
    obtain ⟨n, hat, hacc⟩ := h
    exact ⟨n, hat.write m, hacc.append hat.le m⟩

/-- The client stops writing on the transport, and the end of what it wrote may be lost. -/
theorem cut {bytes' : Bytes} (hb : bytes' <+: bytes) : PhaseInv A c sent bytes' false on conn handed phase := by
  cases phase with
  | asked =>
    obtain ⟨rfl, rfl, n, hread⟩ := h
    exact ⟨rfl, prefix_nil.mp hb, n, hread⟩
  | served catchup =>
    obtain ⟨n, k, hread, hnk, hk, hcat, hstr⟩ := h
    exact ⟨n, k, hread, hnk, hk, hcat, hstr.cut hb⟩
  | revived count =>
    obtain ⟨hc, n, hat, hacc⟩ := h
    exact ⟨hc, n, hat.cut hb, hacc⟩
  | proved =>
    obtain ⟨n, hat, hacc⟩ := h
    exact ⟨n, hat.cut hb, hacc⟩

end PhaseInv

/-- What a recovery under way has to do with the session. -/
structure CandidateInv (A : Aead) (c : CryptoHandler) (s : ClientInput) (candidate : InputCandidate) :
    Prop where
  stream_lt : candidate.conn.stream.id < s.nextStream
  stream_ne : candidate.conn.stream.id ≠ s.session.stream.id
  phase : PhaseInv A c s.sent (s.wire candidate.conn.stream.id) s.client.connected
    (decide (s.clientOn = candidate.conn.stream.id)) candidate.conn candidate.handed candidate.phase

/-- The invariant of the runs in which every packet is handed out once. -/
structure InputInv (A : Aead) (c : CryptoHandler) (observes : Bool) (s : ClientInput) : Prop where
  sealedWriter : SealedWriter A c s.sent s.client
  log_eq : s.log = sealedLog c s.sent
  bound : (s.sent.length : Int) ≤ i64Max
  readable : observes = true → ∀ m ∈ s.sent, unreadableInput m.packet = false
  clientOn_lt : s.clientOn < s.nextStream
  session_lt : s.session.stream.id < s.nextStream
  wire_unused : ∀ t, s.nextStream ≤ t → s.wire t = []
  session : ∃ n,
    ReaderAt A c s.sent n s.session.reader (s.wire s.session.stream.id)
      (s.writing s.session.stream.id) ∧
    Accounts s.sent n s.handed s.session.reader.replay
  candidate : ∀ candidate ∈ s.candidate, CandidateInv A c s candidate

namespace InputInv
variable {A : Aead} {c : CryptoHandler} {observes : Bool} {s : ClientInput}

theorem length_lt (h : InputInv A c observes s) : s.sent.length < 256 ^ nonceLen := by
  have := h.bound
  unfold i64Max at this
  unfold nonceLen
  omega

theorem new (A : Aead) (c toClient : CryptoHandler) (observes : Bool) :
    InputInv A c observes (ClientInput.new c toClient) where
  sealedWriter := .new A c true
  log_eq := rfl
  bound := show (0 : Int) ≤ i64Max by decide
  readable _ m hm := (nomatch hm)
  clientOn_lt := Nat.one_pos
  session_lt := Nat.one_pos
  wire_unused _ _ := rfl
  session := ⟨0, ⟨.new c true, le_rfl, fun _ => .inl (OnStream.start A c [] _)⟩, rfl⟩
  candidate _ h := by cases h

section
variable (h : InputInv A c observes s)
include h

/-- What a write of the client does: nothing, or one packet more, which also goes to the transport
the client writes on. -/
theorem clientWrite_cases (header : UInt8) (payload : Bytes) :
    s.clientWrite A header payload = s ∨
      ∃ client, SealedWriter A c (s.sent ++ [(header, payload)]) client ∧
        client.connected = s.client.connected ∧
        s.clientWrite A header payload =
          { s with
            client := client
            sent := s.sent ++ [(header, payload)]
            log := sealedLog c (s.sent ++ [(header, payload)])
            wire := fun t => if s.writing t then
              s.wire t ++ A.frame (c.advance s.sent.length) (header, payload) else s.wire t } := by
  cases hacc : s.client.accepts payload.length with
  | false =>
    refine .inl ?_
    simp only [ClientInput.clientWrite, writePacket_refused hacc]
  | true =>
    obtain ⟨hw, hout, hconn⟩ := h.sealedWriter.writePacket s.log (m := (header, payload)) hacc
    have hlog := h.sealedWriter.log_append s.log (m := (header, payload)) hacc
    rw [← h.log_eq] at hlog
    refine .inr ⟨_, hw, hconn, ?_⟩
    unfold ClientInput.clientWrite
    rcases hwr : s.client.writePacket (A.sodium s.log) header payload with ⟨outcome, client⟩
    rw [hwr] at hw hout hconn hlog
    cases hc : s.client.connected with
    | false =>
      subst hout
      simp [ClientInput.accept, ClientInput.writing, hc, hlog]
    | true =>
      rw [hc, if_pos rfl] at hout
      subst hout
      simp only [ClientInput.accept, ClientInput.writing, hc, hlog, Bool.true_and, decide_eq_true_eq]
      congr 1
      funext t
      by_cases ht : s.clientOn = t
      · subst ht
        rw [update_self, if_pos rfl]
      · rw [update_of_ne (Ne.symm ht), if_neg ht]

theorem clientWrite {header : UInt8} {payload : Bytes} (hroom : s.client.sequence < i64Max)
    (hread : observes = true → unreadableInput ⟨false, header, payload⟩ = false) :
    InputInv A c observes (s.clientWrite A header payload) := by
  rcases h.clientWrite_cases header payload with heq | ⟨client, hw, hconn, heq⟩
  · rw [heq]
    exact h
  · rw [heq]
    obtain ⟨n, hat, hacc⟩ := h.session
    have hseq := h.sealedWriter.sequence_eq
    refine ⟨hw, rfl, ?_, fun ho => forall_mem_append.mpr ⟨h.readable ho, forall_mem_singleton.mpr (hread ho)⟩,
      h.clientOn_lt, h.session_lt, fun t ht => ?_, ⟨n, ?_, ?_⟩,
      fun candidate hcand => ?_⟩
    · rw [length_append, length_singleton]
      omega
    · have hne : ¬ s.writing t = true := by
        intro hwt
        have hon := (Bool.and_eq_true _ _ ▸ hwt).2
        exact absurd (of_decide_eq_true hon ▸ h.clientOn_lt) (Nat.not_lt.mpr ht)
      dsimp only
      rw [if_neg hne]
      exact h.wire_unused t ht
    · have hwr := hat.write (header, payload)
      unfold ClientInput.writing at hwr ⊢
      rw [hconn]
      exact hwr
    · exact hacc.append hat.le _
    · obtain ⟨hlt, hne, hph⟩ := h.candidate candidate hcand
      refine ⟨hlt, hne, ?_⟩
      have hwr := hph.write (header, payload)
      rw [hconn]
      exact hwr

theorem clientDisconnect (kept : Nat) : InputInv A c observes (s.clientDisconnect kept) := by
  obtain ⟨n, hat, hacc⟩ := h.session
  have hcut : ∀ t, (s.clientDisconnect kept).wire t <+: s.wire t := by
    intro t
    show update s.wire s.clientOn _ t <+: _
    by_cases ht : t = s.clientOn
    · subst ht
      rw [update_self]
      exact List.take_prefix _ _
    · rw [update_of_ne ht]
  refine ⟨h.sealedWriter.invalidate, h.log_eq, h.bound, h.readable, h.clientOn_lt, h.session_lt,
    fun t ht => ?_, ⟨n, hat.cut (hcut _), hacc⟩, fun candidate hcand => ?_⟩
  · have := hcut t
    rw [h.wire_unused t ht] at this
    exact prefix_nil.mp this
  · obtain ⟨hlt, hne, hph⟩ := h.candidate candidate hcand
    exact ⟨hlt, hne, hph.cut (hcut _)⟩

/-- The session's reader and its transport change, and nothing else does. -/
theorem read_session {reader : BackedReader} {queue : Bytes} {handed : List Packet} {n : Nat}
    (hat : ReaderAt A c s.sent n reader queue (s.writing s.session.stream.id))
    (hacc : Accounts s.sent n handed reader.replay) :
    InputInv A c observes
      { s with
        session := { s.session with reader := reader }
        wire := update s.wire s.session.stream.id queue
        handed := handed } := by
  refine { h with wire_unused := fun t ht => ?_, session := ⟨n, ?_, hacc⟩, candidate := fun candidate hcand => ?_ }
  · have hne : t ≠ s.session.stream.id := fun e => absurd (e ▸ h.session_lt) (Nat.not_lt.mpr ht)
    dsimp only
    rw [update_of_ne hne]
    exact h.wire_unused t ht
  · dsimp only
    rw [update_self]
    exact hat
  · obtain ⟨hlt, hne, hph⟩ := h.candidate candidate hcand
    refine ⟨hlt, hne, ?_⟩
    dsimp only
    rw [update_of_ne hne]
    exact hph

/-- **A read of the bridge** hands out the next packet or none. -/
theorem bridgeRead (calls : List RecvCall) : InputInv A c observes (s.bridgeRead A observes calls) := by
  obtain ⟨n, hat, hacc⟩ := h.session
  obtain ⟨n', hat', hacc'⟩ := tryRead_spec h.length_lt 4 calls hat
  have hacc' := hacc' s.handed hacc
  unfold ClientInput.bridgeRead
  dsimp only
  rw [← h.log_eq] at hat' hacc'
  rcases hp : tryRead (A.sodium s.log) 4 calls s.session.reader (s.wire s.session.stream.id) with
    ⟨e | (_ | packet), reader, queue⟩ <;> rw [hp] at hat' hacc'
  · have hkept : Accounts s.sent n' s.handed reader.replay := by simpa [readPackets] using hacc'
    exact h.read_session hat'.invalidate hkept
  · exact h.read_session hat' (by simpa [readPackets] using hacc')
  · -- the packet is one the client sent, so the session can look into it
    have hmem : packet ∈ (s.sent.take n').map Message.packet := by
      have heq : (s.handed ++ [packet]) ++ reader.replay = (s.sent.take n').map Message.packet := hacc'
      rw [← heq]
      exact mem_append_left _ (mem_append_right _ mem_cons_self)
    obtain ⟨m, hm, rfl⟩ := mem_map.mp hmem
    have hkeep : ¬ (observes && unreadableInput m.packet) = true := by
      intro hb
      obtain ⟨ho, hu⟩ := Bool.and_eq_true_iff.mp hb
      exact absurd (hu.symm.trans (h.readable ho m (mem_of_mem_take hm))) (by decide)
    dsimp only
    rw [if_neg hkeep]
    exact h.read_session hat' hacc'

theorem serverDisconnect : InputInv A c observes { s with session := s.session.disconnect } := by
  obtain ⟨n, hat, hacc⟩ := h.session
  exact { h with session := ⟨n, hat.invalidate, hacc⟩, candidate := fun candidate hcand =>
      ⟨(h.candidate candidate hcand).stream_lt, (h.candidate candidate hcand).stream_ne,
        (h.candidate candidate hcand).phase⟩ }

/-- Only the recovery under way changes. -/
theorem set_candidate {candidate : Option InputCandidate} (hcand : ∀ cand ∈ candidate, CandidateInv A c s cand) :
    InputInv A c observes { s with candidate := candidate } :=
  { h with candidate := fun cand hc => ⟨(hcand cand hc).stream_lt, (hcand cand hc).stream_ne, (hcand cand hc).phase⟩ }

theorem snapshot : InputInv A c observes s.snapshot := by
  unfold ClientInput.snapshot
  split
  · exact h
  obtain ⟨n, hat, hacc⟩ := h.session
  refine ⟨h.sealedWriter, h.log_eq, h.bound, h.readable, Nat.lt_succ_of_lt h.clientOn_lt,
    Nat.lt_succ_of_lt h.session_lt, fun t ht => h.wire_unused t (Nat.le_of_succ_le ht),
    ⟨n, hat, hacc⟩, ?_⟩
  rintro candidate ⟨⟩
  refine ⟨Nat.lt_succ_self _, (Nat.ne_of_lt h.session_lt).symm, ?_, ?_, n, ?_⟩
  · exact decide_eq_false (Nat.ne_of_lt h.clientOn_lt)
  · exact h.wire_unused _ le_rfl
  · exact ⟨hat.sealedReader.invalidate, hat.le, hacc⟩

/-- **The client serves the copy** what it lacks, and may move to its transport. -/
theorem clientAnswer (adopts : Bool) : InputInv A c observes (s.clientAnswer adopts) := by
  unfold ClientInput.clientAnswer
  split
  next conn handed hcand =>
    obtain ⟨hlt, hne, hon, hwire, n, hread⟩ := h.candidate _ hcand
    split
    · exact h
    rename_i catchup hok
    have hcat : catchup = (A.frames (c.advance n) ((s.sent.take s.sent.length).drop n)).map
        (List.drop 4) := by
      rw [hread.sealedReader.sequence_eq] at hok
      rw [take_length]
      exact h.sealedWriter.recover_ok hok
    have hph : ∀ connected on, PhaseInv A c s.sent (s.wire conn.stream.id) connected on conn handed
        (.served catchup) := fun connected on =>
      ⟨n, _, hread, hread.le, le_rfl, hcat, by rw [hwire]; exact OnStream.start A c s.sent _⟩
    split
    · obtain ⟨k, hat, hacc⟩ := h.session
      have hoff : ∀ connected : Bool,
          (connected && decide (conn.stream.id = s.session.stream.id)) = false := by
        intro connected
        rw [decide_eq_false hne, Bool.and_false]
      refine { h with sealedWriter := h.sealedWriter.revive, clientOn_lt := hlt, session := ⟨k, ?_, hacc⟩, candidate := ?_ }
      · unfold ClientInput.writing
        rw [hoff]
        exact hat.cut prefix_rfl
      · rintro candidate ⟨⟩
        exact ⟨hlt, hne, hph _ _⟩
    · refine h.set_candidate ?_
      rintro candidate ⟨⟩
      exact ⟨hlt, hne, hph _ _⟩
  · exact h

/-- **The copy revives** with what it was served. -/
theorem serverRevive : InputInv A c observes (s.serverRevive A) := by
  unfold ClientInput.serverRevive
  split
  next conn catchup handed hcand =>
    obtain ⟨hlt, hne, n, k, hread, hnk, hk, rfl, hstr⟩ := h.candidate _ hcand
    have hlen : (s.sent.take k).length = k := by rw [length_take, Nat.min_eq_left hk]
    have hlog : ∀ e ∈ sealedLog c (s.sent.take k), e ∈ s.log := by
      intro e he
      rw [h.log_eq]
      have hspl := sealedLog_append (c := c) (s.sent.take k) (s.sent.drop k)
      rw [take_append_drop] at hspl
      rw [hspl]
      exact mem_append_left _ he
    obtain ⟨reader, hrev, hsr, havail, hconn, hrep⟩ := hread.sealedReader.revive (A := A)
      (by rw [hlen]; exact hnk) hlog
    rw [hlen] at hsr
    have hacc : Accounts s.sent k handed reader.replay := by
      have hprev : handed ++ conn.reader.replay = (s.sent.take n).map Message.packet := hread.accounts
      have htake : s.sent.take n = (s.sent.take k).take n := by
        rw [take_take, Nat.min_eq_left hnk]
      rw [Accounts, hrep, ← append_assoc, hprev, htake, ← map_append, take_append_drop]
    unfold Connection.revive
    rw [hrev]
    refine h.set_candidate ?_
    rintro candidate ⟨⟩
    refine ⟨hlt, hne, hconn, k, ⟨hsr, hk, fun _ => .inl ?_⟩, hacc⟩
    rw [havail]
    exact hstr
  · exact h

/-- The copy's first live packet is queued behind what it has. -/
theorem authenticatePeer (counts : List Nat) : InputInv A c observes (s.authenticatePeer A counts) := by
  unfold ClientInput.authenticatePeer
  split
  next conn handed hcand =>
    obtain ⟨hlt, hne, hconn, n, hat, hacc⟩ := h.candidate _ hcand
    dsimp only
    split
    · exact h.set_candidate fun _ hc => by cases hc
    rename_i packet reader queue hok
    rw [h.log_eq] at hok
    obtain ⟨m, hm, rfl, hrep, hat'⟩ := readLivePacket_spec h.length_lt counts hat hconn hok
    obtain ⟨k, hses, hsacc⟩ := h.session
    refine { h with wire_unused := fun t ht => ?_, session := ⟨k, ?_, hsacc⟩, candidate := ?_ }
    · have hne' : t ≠ conn.stream.id := fun e => absurd (e ▸ hlt) (Nat.not_lt.mpr ht)
      dsimp only
      rw [update_of_ne hne']
      exact h.wire_unused t ht
    · dsimp only
      rw [update_of_ne (Ne.symm hne)]
      exact hses
    · rintro candidate ⟨⟩
      refine ⟨hlt, hne, n + 1, ?_, ?_⟩
      · dsimp only
        rw [update_self]
        obtain ⟨⟨⟨h₁, h₂, h₃, h₄⟩, hseq, hcry⟩, hle, hstr⟩ := hat'
        exact ⟨⟨⟨h₁, h₂, h₃, h₄⟩, hseq, hcry⟩, hle, hstr⟩
      · show handed ++ (reader.replay ++ [m.packet]) = _
        rw [hrep, ← append_assoc, hacc, take_add_one, hm, Option.toList_some, map_append]
        rfl
  · exact h

/-- **An install** after which nothing is handed out twice. -/
theorem install (honce : ∀ candidate ∈ s.candidate, s.handed = candidate.handed) :
    InputInv A c observes s.install := by
  have hswap : ∀ conn phase handed, s.candidate = some ⟨conn, phase, handed⟩ →
      (∃ n, ReaderAt A c s.sent n conn.reader (s.wire conn.stream.id)
          (s.client.connected && decide (s.clientOn = conn.stream.id)) ∧
        Accounts s.sent n handed conn.reader.replay) →
      InputInv A c observes { s with session := conn, candidate := none } := by
    rintro conn phase handed hcand ⟨n, hat, hacc⟩
    refine { h with
      session_lt := (h.candidate _ hcand).stream_lt
      session := ⟨n, hat, ?_⟩
      candidate := fun _ hc => by cases hc }
    rw [honce _ hcand]
    exact hacc
  unfold ClientInput.install
  split
  next conn count handed hcand =>
    obtain ⟨-, -, -, hread⟩ := h.candidate _ hcand
    exact hswap _ _ _ hcand hread
  next conn handed hcand =>
    exact hswap _ _ _ hcand (h.candidate _ hcand).phase
  · exact h

/-- **Every allowed step keeps the invariant.** -/
theorem step {t : ClientInput} (hs : InputStep A observes (HandsOutOnce observes) s t) : InputInv A c observes t := by
  obtain ⟨e, hroom, hallow⟩ := hs
  cases e with
  | clientWrite header payload => exact h.clientWrite hroom hallow
  | clientDisconnect kept => exact h.clientDisconnect kept
  | bridgeRead calls => exact h.bridgeRead calls
  | serverDisconnect => exact h.serverDisconnect
  | snapshot => exact h.snapshot
  | clientAnswer adopts => exact h.clientAnswer adopts
  | serverRevive => exact h.serverRevive
  | authenticatePeer counts => exact h.authenticatePeer counts
  | install => exact h.install hallow
  | abort => exact h.set_candidate fun _ hc => by cases hc

end

end InputInv

/-- **The bridge gets the client's packets in order, each once**, in every run in which nothing is
handed out between a snapshot and its install and the session can look into what the client types. -/
theorem input_handed_in_order (A : Aead) (c toClient : CryptoHandler) (observes : Bool) (s : ClientInput)
    (hrun : Relation.ReflTransGen (InputStep A observes (HandsOutOnce observes))
      (ClientInput.new c toClient) s) :
    s.handed <+: s.sent.map Message.packet := by
  have h := reach_invariant (P := InputInv A c observes) hrun (InputInv.new A c toClient observes)
    fun _ _ h hs => h.step hs
  obtain ⟨n, -, hacc⟩ := h.session
  refine (prefix_append s.handed s.session.reader.replay).trans ?_
  rw [hacc]
  exact (List.take_prefix n _).map _

/-- A packet sent during an outage reaches the bridge through a recovery, once. -/
theorem input_handed_in_order_recovered :
    ∃ s, Relation.ReflTransGen (InputStep Aead.plain true (HandsOutOnce true))
        (ClientInput.new (CryptoHandler.new zeroKey dirClientToServer)
          (CryptoHandler.new zeroKey dirServerToClient)) s ∧
      s.sent = [(7, [1]), (8, [2])] ∧ s.handed = [Packet.raw false 7 [1], Packet.raw false 8 [2]] ∧
      s.handed <+: s.sent.map Message.packet := by
  have hrun : Relation.ReflTransGen (InputStep Aead.plain true (HandsOutOnce true))
      (ClientInput.new (CryptoHandler.new zeroKey dirClientToServer)
        (CryptoHandler.new zeroKey dirServerToClient)) _ := reach_of_events
    (fun s e (h : s.client.sequence < i64Max ∧ HandsOutOnce true s e) => .step s e h.1 h.2)
    [.clientWrite 7 [1], .bridgeRead [⟨0, .count 100⟩], .clientDisconnect 0, .clientWrite 8 [2],
      .snapshot, .clientAnswer true, .serverRevive, .install, .bridgeRead []] (by decide +kernel)
  exact ⟨_, hrun, by decide +kernel, by decide +kernel, input_handed_in_order _ _ _ _ _ hrun⟩

/-- **A packet handed out twice.**  The bridge reads a packet after the snapshot; the copy asks the
client for it, and hands it out again once it is installed. -/
theorem input_handed_twice :
    ∃ s, Relation.ReflTransGen (InputStep Aead.plain true fun _ _ => True)
        (ClientInput.new (CryptoHandler.new zeroKey dirClientToServer)
          (CryptoHandler.new zeroKey dirServerToClient)) s ∧
      s.sent = [(7, [1])] ∧ s.handed = [Packet.raw false 7 [1], Packet.raw false 7 [1]] := by
  refine ⟨_, reach_of_events (fun s e hroom => .step s e hroom trivial)
    [.clientWrite 7 [1], .clientDisconnect 100, .snapshot, .bridgeRead [⟨0, .count 100⟩],
      .clientAnswer true, .serverRevive, .install, .bridgeRead []] ?_, ?_, ?_⟩
  · decide +kernel
  · decide +kernel
  · decide +kernel

end EternalTerminal
