import EternalTerminal.Core.ReaderStream
import EternalTerminal.Core.WriterHistory

/-!
# Core — sealed streams

A writer's messages, sealed one after the other from a handler `c`, against a reader whose handler
stands at some message of the same stream.  The AEAD is ideal: a ciphertext opens exactly when the
log has its plaintext under the same nonce and key, and the nonces of one stream differ.

Main results: `decodePacket_sealed`, `decodePacket_sound`, `popLive_sealed`.
-/

namespace EternalTerminal
open Bytes BackedWriter List StreamReader CryptoHandler

/-- Header and payload of a packet as it is given to a writer and leaves a reader. -/
abbrev Message := UInt8 × Bytes

def Message.packet (m : Message) : Packet := Packet.raw false m.1 m.2

namespace Aead
variable (A : Aead)

/-- The frame of `m` under the next nonce of `c`. -/
def frame (c : CryptoHandler) (m : Message) : Bytes := packetFrame (A.sodium []) c m.1 m.2

/-- The frames of consecutive messages. -/
def frames : CryptoHandler → List Message → List Bytes
  | _, [] => []
  | c, m :: ms => A.frame c m :: frames c.bump ms

end Aead

/-- What sealing consecutive messages puts into the log. -/
def sealedLog : CryptoHandler → List Message → SealLog
  | _, [] => []
  | c, m :: ms => (m.2, c.bump.nonce, c.baseKey) :: sealedLog c.bump ms

section
variable {A : Aead} {c : CryptoHandler}

theorem packetFrame_sodium (A : Aead) (log : SealLog) (c : CryptoHandler) (m : Message) :
    packetFrame (A.sodium log) c m.1 m.2 = A.frame c m := rfl

theorem advance_bump (c : CryptoHandler) (n : Nat) : c.bump.advance n = c.advance (n + 1) := rfl

@[simp] theorem length_frames (ms : List Message) : (A.frames c ms).length = ms.length := by
  induction ms generalizing c with
  | nil => rfl
  | cons m ms ih => rw [Aead.frames, length_cons, ih, length_cons]

theorem frames_append (ms ms' : List Message) :
    A.frames c (ms ++ ms') = A.frames c ms ++ A.frames (c.advance ms.length) ms' := by
  induction ms generalizing c with
  | nil => rfl
  | cons m ms ih =>
    rw [cons_append, Aead.frames, Aead.frames, ih, cons_append, length_cons, advance_bump]

theorem drop_frames (ms : List Message) (n : Nat) :
    (A.frames c ms).drop n = A.frames (c.advance n) (ms.drop n) := by
  induction n generalizing c ms with
  | zero => rfl
  | succ n ih =>
    cases ms with
    | nil => rw [drop_nil, Aead.frames, Aead.frames, drop_nil]
    | cons m ms => rw [Aead.frames, drop_succ_cons, drop_succ_cons, ih, advance_bump]

theorem sealedLog_append (ms ms' : List Message) :
    sealedLog c (ms ++ ms') = sealedLog c ms ++ sealedLog (c.advance ms.length) ms' := by
  induction ms generalizing c with
  | nil => rfl
  | cons m ms ih =>
    rw [cons_append, sealedLog, sealedLog, ih, cons_append, length_cons, advance_bump]

variable {ms : List Message} {bytes rest p : Bytes} {n : Nat} {log : SealLog} {m : Message}

/-- The log of a stream, entry by entry. -/
theorem mem_sealedLog {n : Nonce} {k : Key} :
    (p, n, k) ∈ sealedLog c ms ↔
      ∃ i m, ms[i]? = some m ∧ p = m.2 ∧ n = (c.advance (i + 1)).nonce ∧ k = c.baseKey := by
  induction ms generalizing c with
  | nil => simp [sealedLog]
  | cons m ms ih =>
    rw [sealedLog, mem_cons, ih]
    constructor
    · rintro (h | ⟨i, m', hi, hp, hn, hk⟩)
      · obtain ⟨rfl, rfl, rfl⟩ := h
        exact ⟨0, m, rfl, rfl, rfl, rfl⟩
      · exact ⟨i + 1, m', hi, hp, hn, hk⟩
    · rintro ⟨i, m', hi, hp, hn, hk⟩
      cases i with
      | zero =>
        obtain rfl : m = m' := Option.some.inj hi
        exact .inl (by rw [hp, hn, hk]; rfl)
      | succ i => exact .inr ⟨i, m', hi, hp, hn, hk⟩

/-- A nonce of the stream names its message. -/
theorem sealedLog_unique (hms : ms.length < 256 ^ nonceLen)
    (hn : n < 256 ^ nonceLen - 1) (h : (p, (c.advance (n + 1)).nonce, c.baseKey) ∈ sealedLog c ms) :
    ∃ m, ms[n]? = some m ∧ p = m.2 := by
  obtain ⟨i, m, hi, hp, hnonce, -⟩ := mem_sealedLog.mp h
  have hilt : i < ms.length := (List.getElem?_eq_some_iff.mp hi).1
  have := advance_nonce_inj (by omega) (by omega) hnonce
  obtain rfl : n = i := Nat.succ.inj this
  exact ⟨m, hi, hp⟩

/-! ### Decoding -/

theorem packetFrame_drop (S : Sodium) (c : CryptoHandler) (header : UInt8) (payload : Bytes) :
    (packetFrame S c header payload).drop 4 =
      1 :: header :: S.secretbox payload c.bump.nonce c.baseKey := by
  have hlen : (beBytes 4 (2 + payload.length + macLen)).length = 4 := length_beBytes _ _
  rw [packetFrame, encryptDetached, append_assoc,
    drop_append_of_le_length (by rw [hlen]), drop_of_length_le (by rw [hlen])]
  rfl

theorem frame_drop (c : CryptoHandler) (m : Message) :
    (A.frame c m).drop 4 = 1 :: m.1 :: A.secretbox m.2 c.bump.nonce c.baseKey :=
  packetFrame_drop _ c m.1 m.2

theorem length_frame (c : CryptoHandler) (m : Message) :
    (A.frame c m).length = 4 + (2 + m.2.length + macLen) :=
  length_packetFrame _ _ _ _

/-- **The next frame decodes to its message**, and moves the handler. -/
theorem decodePacket_sealed (h : (m.2, c.bump.nonce, c.baseKey) ∈ log) :
    BackedReader.decodePacket (A.sodium log) c ((A.frame c m).drop 4) = (.ok m.packet, c.bump) := by
  have hopen : A.secretboxOpen log (A.secretbox m.2 c.bump.nonce c.baseKey) c.bump.nonce c.baseKey =
      some m.2 := (A.open_iff _ _ _ _ _).mpr ⟨h, rfl⟩
  have hlen : ¬ (A.secretbox m.2 c.bump.nonce c.baseKey).length < macLen := by
    rw [A.length_secretbox]; omega
  rw [frame_drop, BackedReader.decodePacket, if_neg (by decide), decrypt, if_neg hlen]
  simp only [Aead.sodium, bump_baseKey, hopen]
  rfl

/-- **Nothing else decodes.**  A body that decodes carries a sealed plaintext of the log under the
next nonce, and a body that does not leaves the handler. -/
theorem decodePacket_sound (log : SealLog) (body : Bytes) :
    (∃ flag header p, body = flag :: header :: A.secretbox p c.bump.nonce c.baseKey ∧
        (p, c.bump.nonce, c.baseKey) ∈ log ∧
        BackedReader.decodePacket (A.sodium log) c body = (.ok (Packet.raw false header p), c.bump)) ∨
      ∃ e, BackedReader.decodePacket (A.sodium log) c body = (.error e, c) := by
  unfold BackedReader.decodePacket
  split
  next flag header ciphertext =>
    split
    · exact .inr ⟨_, rfl⟩
    by_cases hsh : ciphertext.length < macLen
    · have hdec : c.decrypt (A.sodium log) ciphertext = (.error .short, c) := if_pos hsh
      rw [hdec]
      exact .inr ⟨_, rfl⟩
    rcases hopen : A.secretboxOpen log ciphertext c.bump.nonce c.bump.baseKey with _ | p
    · have hdec : c.decrypt (A.sodium log) ciphertext = (.error .badMac, c) := by
        simp only [decrypt, if_neg hsh, Aead.sodium, hopen]
      rw [hdec]
      exact .inr ⟨_, rfl⟩
    · have hdec : c.decrypt (A.sodium log) ciphertext = (.ok p, c.bump) := by
        simp only [decrypt, if_neg hsh, Aead.sodium, hopen]
      obtain ⟨hmem, hbox⟩ := (A.open_iff _ _ _ _ _).mp hopen
      rw [hdec]
      exact .inl ⟨flag, header, p, by rw [← hbox]; rfl, hmem, rfl⟩
  · exact .inr ⟨_, rfl⟩

/-- **A catchup of consecutive frames decodes to their messages.** -/
theorem decodeCatchup_sealed (h : ∀ e ∈ sealedLog c ms, e ∈ log) :
    BackedReader.decodeCatchup (A.sodium log) c ((A.frames c ms).map (List.drop 4)) =
      .ok (ms.map Message.packet, c.advance ms.length) := by
  induction ms generalizing c with
  | nil => rfl
  | cons m ms ih =>
    have hm : (m.2, c.bump.nonce, c.baseKey) ∈ log := h _ mem_cons_self
    have hrest := ih (c := c.bump) fun e he => h e (mem_cons_of_mem _ he)
    rw [Aead.frames, map_cons, BackedReader.decodeCatchup, decodePacket_sealed hm]
    simp only [hrest]
    rfl

/-! ### Frames of a stream -/

/-- A frame short enough for a reader. -/
def Message.Fits (m : Message) : Prop := 2 + m.2.length + macLen ≤ maxProtoLen

instance (m : Message) : Decidable m.Fits := inferInstanceAs (Decidable (_ ≤ _))

/-- A message that is next and too long stays next when more are sent. -/
theorem oversize_append {sent : List Message} (h : ∃ m, sent[n]? = some m ∧ ¬ m.Fits)
    (more : List Message) : ∃ m, (sent ++ more)[n]? = some m ∧ ¬ m.Fits := by
  obtain ⟨m, hm, hbig⟩ := h
  have hlt := (List.getElem?_eq_some_iff.mp hm).1
  exact ⟨m, by rw [List.getElem?_append_left hlt, hm], hbig⟩

/-- The front of a stream: part of the next frame, or that frame and more. -/
theorem nextFrame_wire {body : Bytes} (hmin : headerLen ≤ body.length) (hmax : body.length ≤ maxProtoLen)
    (h : bytes <+: beBytes 4 body.length ++ body ++ rest) :
    (nextFrame bytes = .needMore ∧ bytes.length < 4 + body.length) ∨
      ∃ more, bytes = beBytes 4 body.length ++ body ++ more ∧ more <+: rest ∧ nextFrame bytes = .frame body more := by
  have hlen : (beBytes 4 body.length).length = 4 := length_beBytes _ _
  have hmod : body.length % 2 ^ 32 = body.length := by
    unfold maxProtoLen at hmax
    exact Nat.mod_eq_of_lt (by omega)
  by_cases hsh : bytes.length < 4
  · exact .inl ⟨by rw [nextFrame, if_pos hsh], by omega⟩
  -- the length field is all there
  have hparse : parseBeU32Len bytes = .ok body.length := by
    obtain ⟨tail, htail⟩ := h
    rw [← parseBeU32Len_append (by omega) tail, htail, append_assoc, parseBeU32Len_beBytes, hmod, if_neg (by omega)]
  have hsm : ¬ body.length < headerLen := by omega
  by_cases hpart : bytes.length < 4 + body.length
  · refine .inl ⟨?_, hpart⟩
    rw [nextFrame, if_neg hsh, hparse]
    simp only [if_neg hsm, if_pos hpart]
  obtain ⟨more, rfl⟩ : beBytes 4 body.length ++ body <+: bytes :=
    prefix_of_prefix_length_le (prefix_append _ _) h (by rw [length_append]; omega)
  refine .inr ⟨more, rfl, (prefix_append_right_inj _).mp h, ?_⟩
  rw [nextFrame, if_neg hsh, hparse]
  simp only [if_neg hsm, if_neg hpart]
  rw [append_assoc, ← drop_drop, drop_append_of_le_length hlen.ge, drop_of_length_le hlen.le, nil_append,
    take_left, drop_left]

theorem nextFrame_packetFrame {S : Sodium} {header : UInt8} {payload : Bytes}
    (hfit : Message.Fits (header, payload)) (h : bytes <+: packetFrame S c header payload ++ rest) :
    (nextFrame bytes = .needMore ∧ bytes.length < (packetFrame S c header payload).length) ∨
      ∃ more, bytes = packetFrame S c header payload ++ more ∧ more <+: rest ∧
        nextFrame bytes = .frame ((packetFrame S c header payload).drop 4) more := by
  have hlen : ((packetFrame S c header payload).drop 4).length = 2 + payload.length + macLen := by
    rw [length_drop, length_packetFrame, Nat.add_sub_cancel_left]
  have hfr : packetFrame S c header payload = beBytes 4 ((packetFrame S c header payload).drop 4).length ++
      (packetFrame S c header payload).drop 4 := by
    rw [hlen, packetFrame_drop]
    simp [packetFrame, encryptDetached]
  rw [hfr] at h
  rcases nextFrame_wire (by rw [hlen]; unfold headerLen; omega) (hlen ▸ hfit) h with ⟨hmore, hlt⟩ | ⟨more, hbs, hrest, hf⟩
  · exact .inl ⟨hmore, by rwa [length_packetFrame, ← hlen]⟩
  · exact .inr ⟨more, by rw [hbs, ← hfr], hrest, hf⟩

theorem nextFrame_sealed (hfit : m.Fits) (h : bytes <+: A.frame c m ++ rest) :
    (nextFrame bytes = .needMore ∧ bytes.length < (A.frame c m).length) ∨
      ∃ more, bytes = A.frame c m ++ more ∧ more <+: rest ∧
        nextFrame bytes = .frame ((A.frame c m).drop 4) more :=
  nextFrame_packetFrame hfit h

end

/-! ### Live pops on a stream -/

section
variable {A : Aead} {c : CryptoHandler} {ms : List Message} {v : StreamReader} {n : Nat}

/-- **A live pop on bytes of the stream** waits, or answers the next message and consumes its
frame. -/
theorem popLive_sealed (hc : v.connected = true) (hcry : v.crypto = c.advance n)
    (hbs : v.bytes <+: (A.frames (c.advance n) (ms.drop n)).flatten)
    (hfit : ∀ m, ms[n]? = some m → m.Fits) :
    v.popLive (A.sodium (sealedLog c ms)) = (.ok .needMore, v) ∨
      ∃ m rest, ms[n]? = some m ∧ v.bytes = A.frame (c.advance n) m ++ rest ∧
        v.popLive (A.sodium (sealedLog c ms)) = (.ok (.packet m.packet),
          { v with crypto := c.advance (n + 1), bytes := rest, sequence := v.sequence + 1 }) := by
  rcases hn : ms[n]? with _ | m
  · -- nothing of the stream is left
    rw [drop_eq_nil_of_le (List.getElem?_eq_none_iff.mp hn)] at hbs
    have hnil : v.bytes = [] := prefix_nil.mp hbs
    exact .inl (popLive_needMore hc (by rw [hnil]; rfl))
  · obtain ⟨hlt, hget⟩ := List.getElem?_eq_some_iff.mp hn
    rw [drop_eq_getElem_cons hlt, hget, Aead.frames, flatten_cons] at hbs
    rcases nextFrame_sealed (hfit m hn) hbs with ⟨hmore, -⟩ | ⟨more, hspl, -, hfr⟩
    · exact .inl (popLive_needMore hc hmore)
    · refine .inr ⟨m, more, rfl, hspl, ?_⟩
      have hmem : (m.2, (c.advance n).bump.nonce, (c.advance n).baseKey) ∈ sealedLog c ms := by
        rw [← advance_succ, advance_baseKey]
        exact mem_sealedLog.mpr ⟨n, m, hn, rfl, rfl, rfl⟩
      rw [popLive_frame hc hfr, takeFrame, hcry,
        decodePacket_sealed hmem, advance_succ]

/-- **Behind a frame too long for a reader** a live pop never answers a packet, whatever the bytes:
the body it would have to carry is longer than a reader takes. -/
theorem popLive_oversize (hcry : v.crypto = c.advance n) {m : Message} (hn : ms[n]? = some m)
    (hbig : ¬ m.Fits) (hms : ms.length < 256 ^ nonceLen) :
    (∀ p, (v.popLive (A.sodium (sealedLog c ms))).1 ≠ .ok (.packet p)) ∧
      ∃ bytes, (v.popLive (A.sodium (sealedLog c ms))).2 = { v with bytes := bytes } := by
  have hlt := (List.getElem?_eq_some_iff.mp hn).1
  unfold popLive
  split
  · exact ⟨fun p => by simp, v.bytes, rfl⟩
  rcases hf : nextFrame v.bytes with _ | e | ⟨body, rest⟩
  · exact ⟨fun p => by simp, v.bytes, rfl⟩
  · exact ⟨fun p => by simp, v.bytes, rfl⟩
  · rcases decodePacket_sound (A := A) (c := v.crypto) (sealedLog c ms) body with
      ⟨flag, header, p, hbody, hmem, -⟩ | ⟨e, hdec⟩
    · -- the only plaintext under this nonce is the oversize one
      exfalso
      rw [hcry, ← advance_succ, advance_baseKey] at hmem
      obtain ⟨m', hm', rfl⟩ := sealedLog_unique hms (by omega) hmem
      obtain rfl : m = m' := Option.some.inj (hn.symm.trans hm')
      have hle := (nextFrame_length hf).2
      have hlen := congrArg List.length hbody
      rw [length_cons, length_cons, A.length_secretbox] at hlen
      unfold Message.Fits at hbig
      omega
    · simp only [takeFrame, hdec]
      exact ⟨fun p => by simp, rest, rfl⟩

end

/-! ### A writer and a reader of one stream -/

/-- `w` has sealed the messages `sent` from `c` on. -/
structure SealedWriter (A : Aead) (c : CryptoHandler) (sent : List Message) (w : BackedWriter) :
    Prop where
  window : Window (A.frames c sent) w
  crypto_eq : w.crypto = c.advance sent.length

namespace SealedWriter
variable {A : Aead} {c : CryptoHandler} {sent : List Message} {w : BackedWriter}

theorem new (A : Aead) (c : CryptoHandler) (connected : Bool) :
    SealedWriter A c [] (BackedWriter.new c connected) := ⟨Window.new c connected, rfl⟩

section
variable (h : SealedWriter A c sent w)
include h

theorem sequence_eq : w.sequence = sent.length := by
  rw [h.window.sequence_eq, length_frames]

theorem revive : SealedWriter A c sent w.revive :=
  ⟨h.window.revive, h.crypto_eq⟩

theorem invalidate : SealedWriter A c sent w.invalidate :=
  ⟨h.window.invalidate, h.crypto_eq⟩

/-- **An accepted write** seals one more message, and hands out its frame while connected. -/
theorem writePacket (log : SealLog) {m : Message} (hacc : w.accepts m.2.length = true) :
    SealedWriter A c (sent ++ [m]) (w.writePacket (A.sodium log) m.1 m.2).2 ∧
      (w.writePacket (A.sodium log) m.1 m.2).1 =
        (if w.connected then .send (A.frame (c.advance sent.length) m) else .bufferedOnly) ∧
      (w.writePacket (A.sodium log) m.1 m.2).2.connected = w.connected := by
  obtain ⟨hout, hcry, -, hconn, -⟩ := writePacket_accepted (S := A.sodium log) m.1 hacc
  have hwin := h.window.writePacket (A.sodium log) m.1 m.2
  rw [acceptedFrame_eq, if_pos hacc, packetFrame_sodium, h.crypto_eq] at hwin
  rw [packetFrame_sodium, h.crypto_eq] at hout
  refine ⟨⟨?_, ?_⟩, hout, hconn⟩
  · rw [frames_append]
    exact hwin
  · rw [hcry, h.crypto_eq, length_append, ← advance_succ]
    rfl

/-- What the log gets when a message is sealed. -/
theorem log_append (log : SealLog) {m : Message} (hacc : w.accepts m.2.length = true) :
    sealedLog c (sent ++ [m]) = sealedLog c sent ++
      [(m.2, (w.writePacket (A.sodium log) m.1 m.2).2.crypto.nonce,
        (w.writePacket (A.sodium log) m.1 m.2).2.crypto.baseKey)] := by
  obtain ⟨-, hcry, -⟩ := writePacket_accepted (S := A.sodium log) m.1 hacc
  rw [sealedLog_append, hcry, h.crypto_eq]
  rfl

/-- What a peer that has the first `n` messages is served. -/
theorem recover_ok {n : Nat} {catchup : List Bytes} (hok : w.recover n = .ok catchup) :
    catchup = (A.frames (c.advance n) (sent.drop n)).map (List.drop 4) := by
  obtain ⟨-, rfl⟩ := h.window.recover_ok hok
  rw [Int.toNat_natCast, drop_frames]

end

end SealedWriter

/-- `r` has opened the first `n` messages of the stream from `c` on. -/
structure SealedReader (c : CryptoHandler) (n : Nat) (r : BackedReader) : Prop where
  wellFormed : r.WellFormed
  sequence_eq : r.sequence = n
  crypto_eq : r.crypto = c.advance n

namespace SealedReader
variable {A : Aead} {c : CryptoHandler} {n : Nat} {r : BackedReader}

theorem new (c : CryptoHandler) (connected : Bool) : SealedReader c 0 (BackedReader.new c connected) where
  wellFormed := ⟨le_rfl, le_rfl, le_rfl, show minSocketRead ≤ maxSocketReadDefault by decide⟩
  sequence_eq := rfl
  crypto_eq := rfl

section
variable (h : SealedReader c n r)
include h

theorem feed (bytes : Bytes) : SealedReader c n (r.feed bytes) ∧ (r.feed bytes).view = r.view.receive bytes := by
  obtain ⟨hwf, hview⟩ := BackedReader.feed_spec h.wellFormed bytes
  exact ⟨⟨hwf, (congrArg StreamReader.sequence hview).trans h.sequence_eq,
    (congrArg StreamReader.crypto hview).trans h.crypto_eq⟩, hview⟩

theorem socketRead {capacity : Nat} {bytes : Bytes} (hroom : bytes.length ≤ r.offered capacity) :
    SealedReader c n (r.socketRead capacity bytes) ∧
      (r.socketRead capacity bytes).view = r.view.receive bytes := by
  obtain ⟨hwf, hview⟩ := BackedReader.socketRead_spec h.wellFormed hroom
  exact ⟨⟨hwf, (congrArg StreamReader.sequence hview).trans h.sequence_eq,
    (congrArg StreamReader.crypto hview).trans h.crypto_eq⟩, hview⟩

theorem invalidate : SealedReader c n r.invalidate :=
  { h with wellFormed := ⟨le_rfl, le_rfl, h.wellFormed.hint_ge, h.wellFormed.max_ge⟩ }

/-- **Reviving with the messages after the `n`-th** always succeeds, and queues them. -/
theorem revive {log : SealLog} {sent : List Message} (hn : n ≤ sent.length) (hlog : ∀ e ∈ sealedLog c sent, e ∈ log) :
    ∃ r', r.revive (A.sodium log) ((A.frames (c.advance n) (sent.drop n)).map (List.drop 4)) = .ok r' ∧
      SealedReader c sent.length r' ∧ r'.available = [] ∧ r'.connected = true ∧
      r'.replay = r.replay ++ (sent.drop n).map Message.packet := by
  have hmem : ∀ e ∈ sealedLog (c.advance n) (sent.drop n), e ∈ log := by
    intro e he
    have hspl := sealedLog_append (c := c) (sent.take n) (sent.drop n)
    rw [take_append_drop, length_take, Nat.min_eq_left hn] at hspl
    refine hlog e ?_
    rw [hspl]
    exact mem_append_right _ he
  have hdec := decodeCatchup_sealed (A := A) hmem
  rw [← h.crypto_eq] at hdec
  unfold BackedReader.revive
  rw [← h.crypto_eq, hdec]
  refine ⟨_, rfl, ⟨⟨le_rfl, le_rfl, h.wellFormed.hint_ge, h.wellFormed.max_ge⟩, ?_, ?_⟩, rfl, rfl, rfl⟩
  · show r.sequence + _ = _
    rw [h.sequence_eq, length_map, length_frames, length_drop]
    omega
  · show r.crypto.advance _ = _
    rw [h.crypto_eq, ← advance_add, length_drop, Nat.add_sub_cancel' hn]

/-- **One live pop.**  It answers the next message and consumes its frame, or it answers no packet
and the reader stays at its message. -/
theorem popLive (hc : r.connected = true) {sent : List Message} (hsent : sent.length < 256 ^ nonceLen)
    (hbs : r.available <+: (A.frames (c.advance n) (sent.drop n)).flatten ∨ ∃ m, sent[n]? = some m ∧ ¬ m.Fits)
    {result : PopResult} {r' : BackedReader} (hp : r.popLive (A.sodium (sealedLog c sent)) = (result, r')) :
    (∃ m rest, sent[n]? = some m ∧ m.Fits ∧ r.available = A.frame (c.advance n) m ++ rest ∧
        result = .ok (.packet m.packet) ∧ SealedReader c (n + 1) r' ∧ r'.available = rest ∧ r'.replay = r.replay ∧
        r'.connected = true) ∨
      ((∀ p, result ≠ .ok (.packet p)) ∧ SealedReader c n r' ∧
        ∃ bytes, r'.view = { r.view with bytes := bytes } ∧
          ((∀ m, sent[n]? = some m → m.Fits) → bytes = r.available)) := by
  obtain ⟨hwf, hres, hview⟩ := BackedReader.popLive_refines (S := A.sodium (sealedLog c sent)) h.wellFormed
  rw [hp] at hwf hres hview
  dsimp only at hwf hres hview
  have hsame : r'.sequence = r.sequence → r'.crypto = r.crypto → SealedReader c n r' :=
    fun hs hk => ⟨hwf, hs.trans h.sequence_eq, hk.trans h.crypto_eq⟩
  by_cases hfit : ∀ m, sent[n]? = some m → m.Fits
  · have hpre : r.view.bytes <+: (A.frames (c.advance n) (sent.drop n)).flatten := by
      rcases hbs with hb | ⟨m, hm, hbig⟩
      · exact hb
      · exact absurd (hfit m hm) hbig
    rcases popLive_sealed (v := r.view) hc h.crypto_eq hpre hfit with hwait | ⟨m, rest, hm, hspl, hpop⟩
    · rw [hwait] at hres hview
      exact .inr ⟨fun p => by rw [hres]; simp, hsame (congrArg StreamReader.sequence hview)
        (congrArg StreamReader.crypto hview), r.available, hview, fun _ => rfl⟩
    · rw [hpop] at hres hview
      refine .inl ⟨m, rest, hm, hfit m hm, hspl, hres, ⟨hwf, ?_, congrArg StreamReader.crypto hview⟩,
        congrArg bytes hview, congrArg replay hview,
        (congrArg StreamReader.connected hview).trans hc⟩
      refine (congrArg StreamReader.sequence hview).trans ?_
      show r.sequence + 1 = _
      rw [h.sequence_eq]
      rfl
  · push Not at hfit
    obtain ⟨m, hm, hbig⟩ := hfit
    obtain ⟨hno, bytes, hsnd⟩ := popLive_oversize (A := A) (v := r.view) h.crypto_eq hm hbig hsent
    rw [hsnd] at hview
    exact .inr ⟨fun p => by rw [hres]; exact hno p, hsame (congrArg StreamReader.sequence hview)
      (congrArg StreamReader.crypto hview), bytes, hview, fun hf => absurd (hf m hm) hbig⟩

end

end SealedReader

/-- A pop answers nothing while disconnected, then the oldest queued packet, then what a live pop does. -/
theorem BackedReader.pop_cases {S : Sodium} {r r' : BackedReader} {result : PopResult} (hp : r.pop S = (result, r')) :
    (result = .ok .needMore ∧ r' = r) ∨
      (∃ packet replay, r.replay = packet :: replay ∧ result = .ok (.packet packet) ∧ r' = { r with replay := replay }) ∨
      (r.connected = true ∧ r.replay = [] ∧ r.popLive S = (result, r')) := by
  unfold pop at hp
  cases hc : r.connected with
  | false =>
    rw [hc] at hp
    cases hp
    exact .inl ⟨rfl, rfl⟩
  | true =>
    cases hr : r.replay with
    | cons packet replay =>
      simp only [hc, hr] at hp
      cases hp
      exact .inr (.inl ⟨packet, replay, rfl, rfl, rfl⟩)
    | nil =>
      simp only [hc, hr] at hp
      exact .inr (.inr ⟨rfl, rfl, hp⟩)

/-- A reader whose queue was shortened. -/
theorem SealedReader.withReplay {c : CryptoHandler} {n : Nat} {r : BackedReader} (h : SealedReader c n r)
    (replay : List Packet) : SealedReader c n { r with replay := replay } :=
  { h with wellFormed := ⟨h.wellFormed.offset_le, h.wellFormed.filled_le, h.wellFormed.hint_ge, h.wellFormed.max_ge⟩ }

end EternalTerminal
