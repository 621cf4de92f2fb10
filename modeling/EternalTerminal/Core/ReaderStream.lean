import EternalTerminal.Core.BackedReader

/-!
# Core — the reader as a stream

What a `BackedReader` is for: packets queued by a reconnect, then the frames of one byte stream,
however its bytes arrive.  `StreamReader` is that reader: a queue of bytes with no buffer
management.  The buffer refines it: receiving appends (`view_feed`, `view_socketRead`), popping is
the same (`pop_refines`), whatever was compacted, grown or released in between.

* `ReaderRun.results`: so the results of a run are those of the whole stream.

Main result: `chunking_irrelevant`.
-/

namespace EternalTerminal
open Bytes List

/-! ### The abstract reader -/

/-- The frame at the front of a byte queue. -/
inductive NextFrame where
  | needMore
  | malformed (error : FrameError)
  | frame (body rest : Bytes)

def nextFrame (bytes : Bytes) : NextFrame :=
  if bytes.length < 4 then .needMore
  else match parseBeU32Len bytes with
    | .error e => .malformed e
    | .ok len =>
      if len < headerLen then .malformed .tooSmall
      else if bytes.length < 4 + len then .needMore
      else .frame ((bytes.drop 4).take len) (bytes.drop (4 + len))

/-- A reader over a queue of bytes. -/
structure StreamReader where
  crypto : CryptoHandler
  bytes : Bytes
  replay : List Packet
  sequence : Int
  connected : Bool

namespace StreamReader

def receive (v : StreamReader) (more : Bytes) : StreamReader := { v with bytes := v.bytes ++ more }

/-- Decode the frame that was taken off the queue. -/
def takeFrame (S : Sodium) (v : StreamReader) (body rest : Bytes) : PopResult × StreamReader :=
  match BackedReader.decodePacket S v.crypto body with
  | (.error e, crypto) => (.error e, { v with crypto := crypto, bytes := rest })
  | (.ok packet, crypto) =>
    (.ok (.packet packet), { v with crypto := crypto, bytes := rest, sequence := v.sequence + 1 })

def popLive (S : Sodium) (v : StreamReader) : PopResult × StreamReader :=
  if !v.connected then (.ok .needMore, v)
  else match nextFrame v.bytes with
    | .needMore => (.ok .needMore, v)
    | .malformed e => (.error (.frame e), v)
    | .frame body rest => v.takeFrame S body rest

def pop (S : Sodium) (v : StreamReader) : PopResult × StreamReader :=
  if !v.connected then (.ok .needMore, v)
  else match v.replay with
    | packet :: replay => (.ok (.packet packet), { v with replay := replay })
    | [] => v.popLive S

variable {S : Sodium} {v : StreamReader}

theorem pop_disconnected (hc : v.connected = false) : v.pop S = (.ok .needMore, v) := by
  simp [pop, hc]

section
variable (hc : v.connected = true)
include hc

theorem pop_replay {packet : Packet} {replay : List Packet} (hr : v.replay = packet :: replay) :
    v.pop S = (.ok (.packet packet), { v with replay := replay }) := by
  simp [pop, hc, hr]

theorem pop_live (hr : v.replay = []) : v.pop S = v.popLive S := by
  simp [pop, hc, hr]

theorem popLive_needMore (hf : nextFrame v.bytes = .needMore) : v.popLive S = (.ok .needMore, v) := by
  simp [popLive, hc, hf]

theorem popLive_malformed {e : FrameError} (hf : nextFrame v.bytes = .malformed e) :
    v.popLive S = (.error (.frame e), v) := by
  simp [popLive, hc, hf]

theorem popLive_frame {body rest : Bytes} (hf : nextFrame v.bytes = .frame body rest) :
    v.popLive S = v.takeFrame S body rest := by
  simp [popLive, hc, hf]

end

end StreamReader
variable {body bytes rest : Bytes}

/-- The errors of a body are not framing errors. -/
theorem decodePacket_not_frame {S : Sodium} {crypto : CryptoHandler} {e : ReadError}
    (h : (BackedReader.decodePacket S crypto body).1 = .error e) : ∀ f, e ≠ .frame f := by
  rintro f rfl
  unfold BackedReader.decodePacket at h
  split at h
  · split at h
    · cases h
    · split at h <;> cases h
  · cases h

/-- Bytes that come later are behind a frame, and do not mend a malformed one. -/
theorem nextFrame_append (bytes more : Bytes) :
    nextFrame bytes = .needMore ∨
      (∃ e, nextFrame bytes = .malformed e ∧ nextFrame (bytes ++ more) = .malformed e) ∨
      ∃ body rest, nextFrame bytes = .frame body rest ∧ nextFrame (bytes ++ more) = .frame body (rest ++ more) := by
  by_cases hsh : bytes.length < 4
  · exact .inl (if_pos hsh)
  rw [nextFrame, nextFrame, parseBeU32Len_append (by omega), if_neg hsh, if_neg (by rw [length_append]; omega)]
  cases parseBeU32Len bytes with
  | error e => exact .inr (.inl ⟨e, rfl, rfl⟩)
  | ok len =>
    dsimp only
    by_cases hsm : len < headerLen
    · exact .inr (.inl ⟨.tooSmall, if_pos hsm, if_pos hsm⟩)
    rw [if_neg hsm, if_neg hsm]
    by_cases hfull : bytes.length < 4 + len
    · exact .inl (if_pos hfull)
    refine .inr (.inr ⟨_, _, if_neg hfull, ?_⟩)
    rw [if_neg (by rw [length_append]; omega),
      drop_append_of_le_length (by omega), drop_append_of_le_length (by omega),
      take_append_of_le_length (by rw [length_drop]; omega)]

/-- A frame takes its length field and its body off the front, and the body is at most the largest one. -/
theorem nextFrame_length (h : nextFrame bytes = .frame body rest) :
    bytes.length = 4 + body.length + rest.length ∧ body.length ≤ maxProtoLen := by
  unfold nextFrame at h
  split at h
  · cases h
  rename_i hsh
  cases hp : parseBeU32Len bytes with
  | error e => rw [hp] at h; cases h
  | ok len =>
    have hle : len ≤ maxProtoLen := by
      rw [parseBeU32Len, if_neg hsh] at hp
      dsimp only at hp
      split at hp
      · cases hp
      next hmax =>
        obtain rfl := Except.ok.inj hp
        exact Nat.not_lt.mp hmax
    rw [hp] at h
    dsimp only at h
    split at h
    · cases h
    split at h
    · cases h
    · obtain ⟨rfl, rfl⟩ := NextFrame.frame.inj h
      rw [length_take, length_drop, length_drop]
      omega

/-! ### Results of a whole stream -/

/-- The results that end a run of pops. -/
def isNeedMore : PopResult → Bool
  | .ok .needMore => true
  | _ => false

def isFrameError : PopResult → Bool
  | .error (.frame _) => true
  | _ => false

/-- Everything up to the first framing error, which stays. -/
def uptoFrameError : List PopResult → List PopResult
  | [] => []
  | x :: xs => if isFrameError x then [x] else x :: uptoFrameError xs

theorem uptoFrameError_append (xs ys : List PopResult) :
    uptoFrameError (xs ++ ys) =
      if xs.any isFrameError then uptoFrameError xs else xs ++ uptoFrameError ys := by
  induction xs with
  | nil => rfl
  | cons x xs ih =>
    rw [cons_append, uptoFrameError, uptoFrameError, any_cons, ih]
    cases isFrameError x with
    | true => rfl
    | false => cases xs.any isFrameError <;> rfl

namespace StreamReader
variable {S : Sodium}
variable {v : StreamReader}

/-- Pop at most `fuel` times, until more bytes are needed or a frame is malformed. -/
def popAllFrom (S : Sodium) : Nat → StreamReader → List PopResult
  | 0, _ => []
  | fuel + 1, v =>
    let (result, v) := v.pop S
    if isNeedMore result then []
    else if isFrameError result then [result]
    else result :: popAllFrom S fuel v

/-- What is left to pop. -/
def size (v : StreamReader) : Nat := v.replay.length + v.bytes.length

/-- All results; every pop that goes on takes a queued packet or bytes. -/
def popAll (S : Sodium) (v : StreamReader) : List PopResult := v.popAllFrom S (v.size + 1)

theorem takeFrame_spec (S : Sodium) (v : StreamReader) (body rest : Bytes) :
    isNeedMore (v.takeFrame S body rest).1 = false ∧
      isFrameError (v.takeFrame S body rest).1 = false ∧
      (v.takeFrame S body rest).2.replay = v.replay ∧
      (v.takeFrame S body rest).2.bytes = rest ∧
      (v.takeFrame S body rest).2.connected = v.connected := by
  unfold takeFrame
  rcases hd : BackedReader.decodePacket S v.crypto body with ⟨_ | packet, crypto⟩
  next e =>
    refine ⟨rfl, ?_, rfl, rfl, rfl⟩
    cases e with
    | frame f => exact absurd rfl (decodePacket_not_frame (congrArg Prod.fst hd) f)
    | packet _ | crypto _ | unencrypted => rfl
  · exact ⟨rfl, rfl, rfl, rfl, rfl⟩

/-- **What a pop does.**  It waits or stops at a malformed frame and changes nothing; or it
answers a result and leaves less to pop. -/
theorem pop_cases (S : Sodium) (v : StreamReader) :
    v.pop S = (.ok .needMore, v) ∨
    (∃ e, v.pop S = (.error (.frame e), v)) ∨
    (isNeedMore (v.pop S).1 = false ∧ isFrameError (v.pop S).1 = false ∧
      (v.pop S).2.size < v.size) := by
  cases hc : v.connected with
  | false => exact .inl (pop_disconnected hc)
  | true =>
    cases hr : v.replay with
    | cons packet replay =>
      rw [pop_replay hc hr]
      exact .inr (.inr ⟨rfl, rfl, by simp [size, hr]⟩)
    | nil =>
      rw [pop_live hc hr]
      cases hf : nextFrame v.bytes with
      | needMore => exact .inl (popLive_needMore hc hf)
      | malformed e => exact .inr (.inl ⟨e, popLive_malformed hc hf⟩)
      | frame body rest =>
        rw [popLive_frame hc hf]
        obtain ⟨h₁, h₂, h₃, h₄, -⟩ := takeFrame_spec S v body rest
        have hlen := (nextFrame_length hf).1
        refine .inr (.inr ⟨h₁, h₂, ?_⟩)
        rw [size, size, h₃, h₄]
        omega

theorem popAllFrom_eq {fuel : Nat} (h : v.size < fuel) :
    v.popAllFrom S fuel = v.popAll S := by
  -- two amounts of fuel above the size agree
  suffices H : ∀ n m (v : StreamReader), v.size < n → v.size < m →
      v.popAllFrom S n = v.popAllFrom S m from H fuel (v.size + 1) v h (Nat.lt_succ_self _)
  intro n
  induction n with
  | zero => exact fun m v hn => absurd hn (Nat.not_lt_zero _)
  | succ n ih =>
    intro m v hn hm
    cases m with
    | zero => exact absurd hm (Nat.not_lt_zero _)
    | succ m =>
      simp only [popAllFrom]
      rcases pop_cases S v with hp | ⟨e, hp⟩ | ⟨h₁, h₂, hlt⟩
      · simp [hp, isNeedMore]
      · simp [hp, isNeedMore, isFrameError]
      · simp only [h₁, h₂, ih m (v.pop S).2 (by omega) (by omega)]

theorem popAll_of_needMore (h : v.pop S = (.ok .needMore, v)) :
    v.popAll S = [] := by
  simp [popAll, popAllFrom, h, isNeedMore]

theorem popAll_of_frameError {e : FrameError}
    (h : v.pop S = (.error (.frame e), v)) : v.popAll S = [.error (.frame e)] := by
  simp [popAll, popAllFrom, h, isNeedMore, isFrameError]

theorem popAll_of_result (h₁ : isNeedMore (v.pop S).1 = false)
    (h₂ : isFrameError (v.pop S).1 = false) (hlt : (v.pop S).2.size < v.size) :
    v.popAll S = (v.pop S).1 :: (v.pop S).2.popAll S := by
  rw [popAll, popAllFrom]
  simp only [h₁, h₂, Bool.false_eq_true, if_false, popAllFrom_eq hlt]

@[simp] theorem receive_nil (v : StreamReader) : v.receive [] = v := by
  simp [receive]

theorem receive_receive (v : StreamReader) (bytes more : Bytes) :
    (v.receive bytes).receive more = v.receive (bytes ++ more) := by
  simp [receive]

theorem uptoFrameError_popAll (v : StreamReader) : uptoFrameError (v.popAll S) = v.popAll S := by
  suffices H : ∀ n (v : StreamReader), uptoFrameError (v.popAllFrom S n) = v.popAllFrom S n from
    H _ v
  intro n
  induction n with
  | zero => exact fun _ => rfl
  | succ n ih =>
    intro v
    rw [popAllFrom]
    dsimp only
    cases h₁ : isNeedMore (v.pop S).1 with
    | true => rfl
    | false =>
      cases h₂ : isFrameError (v.pop S).1 with
      | true => simp [uptoFrameError, h₂]
      | false => simp [uptoFrameError, h₂, ih]

/-- **Later bytes do not change an answer.**  A pop that does not wait gives the same result, and
leaves the same reader with the later bytes behind it. -/
theorem pop_receive (more : Bytes) (h : isNeedMore (v.pop S).1 = false) :
    (v.receive more).pop S = ((v.pop S).1, (v.pop S).2.receive more) := by
  cases hc : v.connected with
  | false => rw [pop_disconnected hc] at h; cases h
  | true =>
    have hc' : (v.receive more).connected = true := hc
    cases hr : v.replay with
    | cons packet replay =>
      rw [pop_replay hc hr, pop_replay hc' hr]
      rfl
    | nil =>
      rw [pop_live hc hr] at h ⊢
      rw [pop_live hc' hr]
      rcases nextFrame_append v.bytes more with hf | ⟨e, hf, hf'⟩ | ⟨body, rest, hf, hf'⟩
      · rw [popLive_needMore hc hf] at h
        cases h
      · rw [popLive_malformed hc hf, popLive_malformed hc' hf']
      · rw [popLive_frame hc hf, popLive_frame hc' hf']
        unfold takeFrame receive
        rcases BackedReader.decodePacket S v.crypto body with ⟨_ | _, _⟩ <;> rfl

end StreamReader

/-! ### The buffer refines the queue -/

namespace BackedReader
variable {S : Sodium} {r : BackedReader}

/-- The reader as a queue of bytes. -/
def view (r : BackedReader) : StreamReader where
  crypto := r.crypto
  bytes := r.available
  replay := r.replay
  sequence := r.sequence
  connected := r.connected

/-- The buffer's bounds, and a next read of at least the minimum. -/
structure WellFormed (r : BackedReader) : Prop where
  offset_le : r.offset ≤ r.filled
  filled_le : r.filled ≤ r.partialBytes.length
  hint_ge : minSocketRead ≤ r.readHint
  max_ge : minSocketRead ≤ r.maxSocketRead

theorem WellFormed.length_available (h : r.WellFormed) :
    r.available.length = r.filled - r.offset :=
  length_slice h.filled_le

theorem available_of_offset_eq (h : r.offset = r.filled) : r.available = [] := by
  rw [available, h, slice_self]

/-- Making room keeps the bytes that are available. -/
theorem prepareReadSlice_spec (h : r.WellFormed) (minSpace : Nat) :
    (r.prepareReadSlice minSpace).WellFormed ∧ (r.prepareReadSlice minSpace).view = r.view ∧
      (r.prepareReadSlice minSpace).filled + minSpace ≤
        (r.prepareReadSlice minSpace).partialBytes.length ∧
      (r.prepareReadSlice minSpace).readRequested = r.readRequested ∧
      (r.prepareReadSlice minSpace).readHint = r.readHint := by
  -- the two ways to move the available bytes to the front, then the growth
  have hmoved : ∃ r' : BackedReader, r'.WellFormed ∧ r'.view = r.view ∧
      r'.readRequested = r.readRequested ∧ r'.readHint = r.readHint ∧
      r.prepareReadSlice minSpace =
        if r'.partialBytes.length < r'.filled + minSpace then
          { r' with partialBytes := r'.partialBytes ++
              List.replicate (r'.filled + minSpace - r'.partialBytes.length) 0 }
        else r' := by
    by_cases heq : r.offset = r.filled
    · refine ⟨{ r with offset := 0, filled := 0 }, ⟨le_rfl, Nat.zero_le _, h.hint_ge, h.max_ge⟩, ?_, rfl, rfl, ?_⟩
      · rw [view, view, available_of_offset_eq heq, available_of_offset_eq rfl]
      · simp only [prepareReadSlice, if_pos heq]
    by_cases hmove : 0 < r.offset ∧ (r.partialBytes.length - r.filled < minSpace ∨
        64 * 1024 ≤ r.offset ∨ r.filled - r.offset ≤ 16 * 1024)
    · have hlen := length_slice (a := r.offset) h.filled_le
      have hle := h.filled_le
      refine ⟨{ r with
          partialBytes := overwrite 0 (slice r.offset r.filled r.partialBytes) r.partialBytes
          offset := 0
          filled := r.filled - r.offset }, ⟨Nat.zero_le _, ?_, h.hint_ge, h.max_ge⟩, ?_, rfl, rfl, ?_⟩
      · dsimp only
        rw [length_overwrite (by omega)]
        omega
      · simp only [view, available, slice_copyWithin h.filled_le]
      · simp only [prepareReadSlice, if_neg heq, if_pos hmove]
    · exact ⟨r, h, rfl, rfl, rfl, by simp only [prepareReadSlice, if_neg heq, if_neg hmove]⟩
  obtain ⟨r', hwf, hview, hreq, hhint, heq⟩ := hmoved
  rw [heq]
  split
  · refine ⟨{ hwf with filled_le := ?_ }, ?_, ?_, hreq, hhint⟩
    · have := hwf.filled_le
      simp only [length_append]
      omega
    · rw [← hview]
      simp only [view, available, slice_append_right _ hwf.filled_le]
    · simp only [length_append, length_replicate]
      omega
  · exact ⟨hwf, hview, by omega, hreq, hhint⟩

/-- Bytes stored in the offered slice and committed are received. -/
theorem fillSlice_spec (h : r.WellFormed) (bytes : Bytes) (hroom : r.filled + bytes.length ≤ r.partialBytes.length) :
    ((r.fillSlice bytes).commitRead bytes.length).WellFormed ∧
      ((r.fillSlice bytes).commitRead bytes.length).view = r.view.receive bytes := by
  refine ⟨⟨h.offset_le.trans (Nat.le_add_right _ _), ?_, h.hint_ge, h.max_ge⟩, ?_⟩
  · simpa only [fillSlice, commitRead, length_overwrite hroom] using hroom
  · simp only [view, available, fillSlice, commitRead, StreamReader.receive, slice_overwrite h.offset_le hroom]

theorem feed_spec (h : r.WellFormed) (bytes : Bytes) :
    (r.feed bytes).WellFormed ∧ (r.feed bytes).view = r.view.receive bytes := by
  unfold feed
  split
  next hemp =>
    obtain rfl := List.isEmpty_iff.mp hemp
    exact ⟨h, by simp [StreamReader.receive]⟩
  · obtain ⟨hwf, hview, hroom, -, -⟩ := prepareReadSlice_spec h bytes.length
    rw [← hview]
    exact fillSlice_spec hwf _ hroom

theorem alignedReadLen_pos {limit : Nat} (h : 0 < limit) :
    0 < r.alignedReadLen limit := by
  unfold alignedReadLen
  dsimp only
  split
  · exact h
  rename_i hfr
  split
  · exact h
  rename_i rest hrest
  split
  · omega
  split
  · exact h
  rename_i hzero
  have hpos : 0 < r.lastFrameLen := by unfold minSocketRead at hfr; omega
  rcases Nat.eq_zero_or_pos rest with rfl | hr
  · have hwh := Nat.pos_of_ne_zero fun hw => hzero ⟨rfl, hw⟩
    exact Nat.add_pos_right _ (Nat.mul_pos hwh hpos)
  · omega

/-- A read from the socket: at most the offered slice is filled. -/
def socketRead (r : BackedReader) (capacity : Nat) (bytes : Bytes) : BackedReader :=
  ((r.prepareSocketRead capacity).fillSlice bytes).commitSocketRead bytes.length

/-- The length of the slice `prepareSocketRead` offers. -/
def offered (r : BackedReader) (capacity : Nat) : Nat := (r.prepareSocketRead capacity).readRequested

section
variable (h : r.WellFormed)
include h

theorem prepareSocketRead_spec (capacity : Nat) :
    (r.prepareSocketRead capacity).WellFormed ∧ (r.prepareSocketRead capacity).view = r.view ∧
      (r.prepareSocketRead capacity).filled + r.offered capacity ≤
        (r.prepareSocketRead capacity).partialBytes.length ∧
      0 < r.offered capacity := by
  have hrel : (r.releaseDrained capacity).WellFormed ∧
      (r.releaseDrained capacity).view = r.view := by
    unfold releaseDrained
    split
    next hd =>
      refine ⟨⟨le_rfl, le_rfl, h.hint_ge, h.max_ge⟩, ?_⟩
      rw [view, view, available_of_offset_eq hd.1, available_of_offset_eq rfl]
    · exact ⟨h, rfl⟩
  unfold offered prepareSocketRead
  generalize r.releaseDrained capacity = r' at hrel ⊢
  obtain ⟨hwf, hview⟩ := hrel
  have hwf' : ({ r' with readRequested := r'.alignedReadLen r'.readHint } : BackedReader).WellFormed :=
    { hwf with }
  obtain ⟨h₁, h₂, h₃, h₄, -⟩ := prepareReadSlice_spec hwf' (r'.alignedReadLen r'.readHint)
  have hpos : 0 < r'.readHint := lt_of_lt_of_le (by decide) hwf.hint_ge
  refine ⟨h₁, h₂.trans hview, ?_, ?_⟩
  · simpa only [h₄] using h₃
  · simpa only [h₄] using alignedReadLen_pos hpos

theorem socketRead_spec {capacity : Nat} {bytes : Bytes} (hroom : bytes.length ≤ r.offered capacity) :
    (r.socketRead capacity bytes).WellFormed ∧
      (r.socketRead capacity bytes).view = r.view.receive bytes := by
  obtain ⟨hwf, hview, hfit, -⟩ := prepareSocketRead_spec h capacity
  obtain ⟨h₁, h₂⟩ := fillSlice_spec hwf bytes (by omega)
  rw [hview] at h₂
  unfold socketRead commitSocketRead
  dsimp only
  generalize ((r.prepareSocketRead capacity).fillSlice bytes).commitRead bytes.length = r' at h₁ h₂ ⊢
  have hmin : minSocketRead ≤ r'.readHint * 4 := h₁.hint_ge.trans (Nat.le_mul_of_pos_right _ (by decide))
  split
  · exact ⟨{ h₁ with hint_ge := le_min hmin h₁.max_ge }, h₂⟩
  · split
    · exact ⟨{ h₁ with hint_ge := le_max_right _ _ }, h₂⟩
    · exact ⟨h₁, h₂⟩

theorem restartDrained_spec : r.restartDrained.WellFormed ∧ r.restartDrained.view = r.view := by
  unfold restartDrained
  split
  next hd =>
    refine ⟨⟨le_rfl, Nat.zero_le _, h.hint_ge, h.max_ge⟩, ?_⟩
    rw [view, view, available_of_offset_eq hd, available_of_offset_eq rfl]
  · exact ⟨h, rfl⟩

theorem noteData_spec (packet : Packet) : (r.noteData packet).WellFormed ∧ (r.noteData packet).view = r.view := by
  unfold noteData
  split
  · exact ⟨{ h with }, rfl⟩
  · exact ⟨h, rfl⟩

/-- Consuming a frame of the buffer is consuming it from the queue: its body and the bytes after
it are slices of the same buffer. -/
theorem takeFrame_refines {len : Nat} (hlen : 4 + len ≤ r.available.length) :
    (r.takeFrame S len).2.WellFormed ∧
      (r.takeFrame S len).1 = (r.view.takeFrame S ((r.available.drop 4).take len)
        (r.available.drop (4 + len))).1 ∧
      (r.takeFrame S len).2.view = (r.view.takeFrame S ((r.available.drop 4).take len)
        (r.available.drop (4 + len))).2 := by
  rw [h.length_available] at hlen
  have hbody : (r.available.drop 4).take len =
      slice (r.offset + 4) (r.offset + 4 + len) r.partialBytes := by
    rw [available, drop_slice, take_slice _ (by omega)]
  have hrest : r.available.drop (4 + len) = slice (r.offset + 4 + len) r.filled r.partialBytes := by
    rw [available, drop_slice, Nat.add_assoc]
  rw [hbody, hrest]
  unfold takeFrame StreamReader.takeFrame
  dsimp only [view]
  rcases decodePacket S r.crypto (slice (r.offset + 4) (r.offset + 4 + len) r.partialBytes) with
    ⟨result, crypto⟩
  obtain ⟨h₁, h₂⟩ := restartDrained_spec (r := { r with
      crypto := crypto
      offset := r.offset + 4 + len
      lastFrameLen := 4 + len }) { h with offset_le := by dsimp only; omega }
  cases result with
  | error e => exact ⟨h₁, rfl, h₂⟩
  | ok packet =>
    dsimp only
    generalize restartDrained _ = r' at h₁ h₂ ⊢
    obtain ⟨h₃, h₄⟩ := noteData_spec (r := { r' with sequence := r'.sequence + 1 })
      { h₁ with } packet
    refine ⟨h₃, rfl, h₄.trans ?_⟩
    obtain ⟨hcry, hbs, hrep, hseq, hconn⟩ := StreamReader.mk.inj h₂
    exact StreamReader.mk.injEq .. ▸ ⟨hcry, hbs, hrep, congrArg (· + 1) hseq, hconn⟩

/-- The live pop of the buffer is that of the queue. -/
theorem popLive_refines :
    (r.popLive S).2.WellFormed ∧ (r.popLive S).1 = (r.view.popLive S).1 ∧
      (r.popLive S).2.view = (r.view.popLive S).2 := by
  have hv : r.view.connected = r.connected := rfl
  have hb : r.view.bytes = r.available := rfl
  unfold popLive StreamReader.popLive nextFrame
  rw [hv, hb]
  cases r.connected with
  | false => exact ⟨h, rfl, rfl⟩
  | true =>
    by_cases hsh : r.available.length < 4
    · simp only [if_pos hsh]
      exact ⟨h, rfl, rfl⟩
    simp only [if_neg hsh]
    cases parseBeU32Len r.available with
    | error e => exact ⟨h, rfl, rfl⟩
    | ok len =>
      by_cases hsm : len < headerLen
      · simp only [if_pos hsm]
        exact ⟨h, rfl, rfl⟩
      by_cases hfull : r.available.length < 4 + len
      · simp only [if_neg hsm, if_pos hfull]
        exact ⟨h, rfl, rfl⟩
      simp only [if_neg hsm, if_neg hfull]
      exact takeFrame_refines h (Nat.not_lt.mp hfull)

/-- **The pop of the buffer is that of the queue.** -/
theorem pop_refines :
    (r.pop S).2.WellFormed ∧ (r.pop S).1 = (r.view.pop S).1 ∧
      (r.pop S).2.view = (r.view.pop S).2 := by
  cases hc : r.connected with
  | false =>
    have hpop : r.pop S = (.ok .needMore, r) := by simp [pop, hc]
    rw [hpop, StreamReader.pop_disconnected hc]
    exact ⟨h, rfl, rfl⟩
  | true =>
    cases hr : r.replay with
    | cons packet replay =>
      have hpop : r.pop S = (.ok (.packet packet), { r with replay := replay }) := by
        simp [pop, hc, hr]
      rw [hpop, StreamReader.pop_replay hc hr]
      exact ⟨{ h with }, rfl, rfl⟩
    | nil =>
      have hpop : r.pop S = r.popLive S := by simp [pop, hc, hr]
      rw [hpop, StreamReader.pop_live hc hr]
      exact popLive_refines h

end

/-- `hasBufferedData` answers whether the next pop waits. -/
theorem hasBufferedData_iff (S : Sodium) (r : BackedReader) :
    r.hasBufferedData = true ↔ (r.pop S).1 ≠ .ok .needMore := by
  unfold hasBufferedData pop
  cases hc : r.connected with
  | false => simp
  | true =>
    cases hr : r.replay with
    | cons packet replay => simp
    | nil =>
      simp only [popLive, hc, Bool.not_true, Bool.false_eq_true, if_false, isEmpty_nil]
      by_cases hsh : r.available.length < 4
      · simp [hsh]
      simp only [if_neg hsh]
      cases parseBeU32Len r.available with
      | error e => simp
      | ok len =>
        by_cases hsm : len < headerLen
        · simp [hsm]
        by_cases hfull : r.available.length < 4 + len
        · simp [hsm, hfull]
        have hle : 4 + len ≤ r.available.length := by omega
        simp only [hsm, hfull, hle, if_false, decide_true, Bool.or_true, true_iff, takeFrame]
        split <;> simp

/-- Pop at most `fuel` times, until more bytes are needed or a frame is malformed. -/
def popAllFrom (S : Sodium) : Nat → BackedReader → List PopResult
  | 0, _ => []
  | fuel + 1, r =>
    let (result, r) := r.pop S
    if isNeedMore result then []
    else if isFrameError result then [result]
    else result :: popAllFrom S fuel r

/-- Pop until more bytes are needed or a frame is malformed. -/
def popAll (S : Sodium) (r : BackedReader) : List PopResult :=
  r.popAllFrom S (r.replay.length + r.available.length + 1)

theorem popAllFrom_refines (n : Nat) (h : r.WellFormed) :
    r.popAllFrom S n = r.view.popAllFrom S n := by
  induction n generalizing r with
  | zero => rfl
  | succ n ih =>
    obtain ⟨hwf, hres, hview⟩ := pop_refines (S := S) h
    simp only [popAllFrom, StreamReader.popAllFrom, hres, ih hwf, hview]

theorem popAll_refines (h : r.WellFormed) :
    r.popAll S = r.view.popAll S :=
  popAllFrom_refines _ h

/-- More pops than queued packets and bytes answer nothing more. -/
theorem popAllFrom_eq (h : r.WellFormed) {fuel : Nat}
    (hfuel : r.replay.length + r.available.length < fuel) : r.popAllFrom S fuel = r.popAll S := by
  rw [popAllFrom_refines fuel h, popAll_refines h]
  exact StreamReader.popAllFrom_eq hfuel

/-- The states a reader can get into: built, given bytes, popped, and taken through reconnects. -/
inductive Reachable (S : Sodium) : BackedReader → Prop where
  | new (crypto : CryptoHandler) (connected : Bool) : Reachable S (BackedReader.new crypto connected)
  | withMaxSocketRead {r : BackedReader} (h : Reachable S r) (bytes : Nat) :
      Reachable S (r.withMaxSocketRead bytes)
  | feed {r : BackedReader} (h : Reachable S r) (bytes : Bytes) : Reachable S (r.feed bytes)
  | socketRead {r : BackedReader} (h : Reachable S r) (capacity : Nat) (bytes : Bytes)
      (hroom : bytes.length ≤ r.offered capacity) : Reachable S (r.socketRead capacity bytes)
  | pop {r : BackedReader} (h : Reachable S r) : Reachable S (r.pop S).2
  | popLive {r : BackedReader} (h : Reachable S r) : Reachable S (r.popLive S).2
  | unread {r : BackedReader} (h : Reachable S r) (packet : Packet) : Reachable S (r.unread packet)
  | invalidate {r : BackedReader} (h : Reachable S r) : Reachable S r.invalidate
  | revive {r r' : BackedReader} (h : Reachable S r) (catchup : List Bytes)
      (hok : r.revive S catchup = .ok r') : Reachable S r'
  | reset {r r' : BackedReader} (h : Reachable S r) (salt : Bytes) (hok : r.reset S salt = .ok r') :
      Reachable S r'

theorem revive_ok {r' : BackedReader} {catchup : List Bytes} (h : r.revive S catchup = .ok r') :
    ∃ decoded crypto, decodeCatchup S r.crypto catchup = .ok (decoded, crypto) ∧
      r' = { r with
        partialBytes := []
        offset := 0
        filled := 0
        crypto := crypto
        replay := r.replay ++ decoded
        sequence := r.sequence + catchup.length
        dataSequence :=
          if decoded.any fun packet => packet.header != keepAlive then r.sequence + catchup.length
          else r.dataSequence
        connected := true } := by
  unfold revive at h
  cases hd : decodeCatchup S r.crypto catchup with
  | error e => rw [hd] at h; cases h
  | ok d =>
    rw [hd] at h
    cases h
    exact ⟨d.1, d.2, rfl, rfl⟩

theorem Reachable.wellFormed (h : Reachable S r) : r.WellFormed := by
  induction h with
  | new crypto connected =>
    exact ⟨le_rfl, le_rfl, le_rfl, show minSocketRead ≤ maxSocketReadDefault by decide⟩
  | withMaxSocketRead _ bytes ih =>
    exact { ih with max_ge := le_max_right _ _ }
  | feed _ bytes ih => exact (feed_spec ih bytes).1
  | socketRead _ capacity bytes hroom ih => exact (socketRead_spec ih hroom).1
  | pop _ ih => exact (pop_refines ih).1
  | popLive _ ih => exact (popLive_refines ih).1
  | unread _ packet ih => exact { ih with }
  | invalidate _ ih => exact ⟨le_rfl, le_rfl, ih.hint_ge, ih.max_ge⟩
  | revive _ catchup hok ih =>
    obtain ⟨_, _, _, rfl⟩ := revive_ok hok
    exact ⟨le_rfl, le_rfl, ih.hint_ge, ih.max_ge⟩
  | @reset r _ _ salt hok ih =>
    unfold BackedReader.reset at hok
    cases hk : r.crypto.rekey S salt with
    | error e => rw [hk] at hok; cases hok
    | ok crypto =>
      rw [hk] at hok
      cases hok
      exact ⟨le_rfl, le_rfl, ih.hint_ge, ih.max_ge⟩

end BackedReader

/-! ### Runs over one stream -/

/-- Chunks of `stream` delivered to `r₀` by either path, with pops anywhere between them; `results`
are what the pops answered and `r` is the reader afterwards. -/
inductive ReaderRun (S : Sodium) (r₀ : BackedReader) :
    Bytes → List PopResult → BackedReader → Prop where
  | start : ReaderRun S r₀ [] [] r₀
  | feed {stream results r} (h : ReaderRun S r₀ stream results r) (chunk : Bytes) :
      ReaderRun S r₀ (stream ++ chunk) results (r.feed chunk)
  | socketRead {stream results r} (h : ReaderRun S r₀ stream results r) (capacity : Nat)
      (chunk : Bytes) (hroom : chunk.length ≤ r.offered capacity) :
      ReaderRun S r₀ (stream ++ chunk) results (r.socketRead capacity chunk)
  | pop {stream results r} (h : ReaderRun S r₀ stream results r) :
      ReaderRun S r₀ stream (results ++ [(r.pop S).1]) (r.pop S).2

namespace ReaderRun
variable {S : Sodium} {r₀ r : BackedReader} {stream : Bytes} {results : List PopResult}
variable (h₀ : BackedReader.Reachable S r₀) (h : ReaderRun S r₀ stream results r)
include h₀ h

theorem reachable : BackedReader.Reachable S r := by
  induction h with
  | start => exact h₀
  | feed _ chunk ih => exact .feed ih chunk
  | socketRead _ capacity chunk hroom ih => exact .socketRead ih capacity chunk hroom
  | pop _ ih => exact .pop ih

/-- **The results of a run are those of its stream**: what was popped and what is left to pop,
whatever arrives later. -/
theorem results_eq (later : Bytes) :
    uptoFrameError (results.filter (fun x => !isNeedMore x) ++ (r.view.receive later).popAll S) =
      (r₀.view.receive (stream ++ later)).popAll S := by
  induction h generalizing later with
  | start => exact StreamReader.uptoFrameError_popAll _
  | @feed stream results r h chunk ih =>
    rw [(BackedReader.feed_spec (h.reachable h₀).wellFormed chunk).2, append_assoc, ← ih, StreamReader.receive_receive]
  | @socketRead stream results r h capacity chunk hroom ih =>
    rw [(BackedReader.socketRead_spec (h.reachable h₀).wellFormed hroom).2, append_assoc,
      ← ih, StreamReader.receive_receive]
  | @pop stream results r h ih =>
    obtain ⟨-, hres, hview⟩ := BackedReader.pop_refines (S := S) (h.reachable h₀).wellFormed
    rw [← ih, hres, hview, filter_append]
    rcases StreamReader.pop_cases S r.view with hp | ⟨e, hp⟩ | ⟨h₁, h₂, hlt⟩
    · simp [hp, isNeedMore]
    · -- a malformed frame stays at the front, so the rest is never reached
      have hp' := StreamReader.pop_receive (S := S) (v := r.view) later (by rw [hp]; rfl)
      rw [hp] at hp' ⊢
      have hone : [(.error (.frame e) : PopResult)].filter (fun x => !isNeedMore x) =
          [.error (.frame e)] := rfl
      rw [StreamReader.popAll_of_frameError hp', hone, uptoFrameError_append (_ ++ _), if_pos (by simp [isFrameError])]
    · have hp' := StreamReader.pop_receive (S := S) later h₁
      have hlt' : ((r.view.receive later).pop S).2.size < (r.view.receive later).size := by
        rw [hp']
        simp only [StreamReader.size, StreamReader.receive, length_append] at hlt ⊢
        omega
      rw [StreamReader.popAll_of_result (v := r.view.receive later) (by rw [hp']; exact h₁)
        (by rw [hp']; exact h₂) hlt', hp']
      simp [h₁]

end ReaderRun

/-- **Chunking is irrelevant.**  However a stream is cut into chunks and delivered, by `feed` or through the offered
slice, with pops anywhere: what the pops answered, followed by what is left to pop, is up to the first framing error
what popping everything answers after the whole stream was fed at once.  The bounds hold, a socket read is always
offered space, and `hasBufferedData` says whether the next pop waits. -/
theorem chunking_irrelevant (S : Sodium) (r₀ r : BackedReader) (stream : Bytes)
    (results : List PopResult) (h₀ : BackedReader.Reachable S r₀)
    (h : ReaderRun S r₀ stream results r) :
    uptoFrameError (results.filter (fun x => !isNeedMore x) ++ r.popAll S) =
        (r₀.feed stream).popAll S ∧
      (∀ fuel, (r₀.feed stream).replay.length + (r₀.feed stream).available.length < fuel →
        (r₀.feed stream).popAllFrom S fuel = (r₀.feed stream).popAll S) ∧
      (r.offset ≤ r.filled ∧ r.filled ≤ r.partialBytes.length) ∧
      (∀ capacity, 0 < r.offered capacity ∧
        (r.prepareSocketRead capacity).filled + r.offered capacity ≤
          (r.prepareSocketRead capacity).partialBytes.length) ∧
      (r.hasBufferedData = true ↔ (r.pop S).1 ≠ .ok .needMore) := by
  have hwf := (h.reachable h₀).wellFormed
  obtain ⟨hwf₀, hview₀⟩ := BackedReader.feed_spec h₀.wellFormed stream
  refine ⟨?_, fun fuel => BackedReader.popAllFrom_eq hwf₀, ⟨hwf.offset_le, hwf.filled_le⟩,
    fun capacity => ?_, r.hasBufferedData_iff S⟩
  · have := h.results_eq h₀ []
    rwa [append_nil, StreamReader.receive_nil, ← hview₀, ← BackedReader.popAll_refines hwf,
      ← BackedReader.popAll_refines hwf₀] at this
  · obtain ⟨-, -, hfit, hpos⟩ := BackedReader.prepareSocketRead_spec hwf capacity
    exact ⟨hpos, hfit⟩

/-- A frame cut inside its length field, with a pop in between. -/
theorem chunking_irrelevant_cut :
    let S := Aead.plain.sodium [([5], (CryptoHandler.new zeroKey 0).bump.nonce, zeroKey)]
    let r₀ := BackedReader.new (CryptoHandler.new zeroKey 0) true
    let frame := [0, 0, 0, 19, 1, 7] ++ List.replicate 16 0 ++ [5]
    ∃ results r, ReaderRun S r₀ frame results r ∧
      results = [.ok .needMore, .ok (.packet (Packet.raw false 7 [5]))] ∧
      uptoFrameError (results.filter (fun x => !isNeedMore x) ++ r.popAll S) =
        (r₀.feed frame).popAll S := by
  intro S r₀ frame
  have hrun : ReaderRun S r₀ frame _ _ := (((@ReaderRun.start S r₀).feed
    (frame.take 2)).pop.feed (frame.drop 2)).pop
  exact ⟨_, _, hrun, by decide +kernel, (chunking_irrelevant S r₀ _ _ _ (.new _ _) hrun).1⟩

end EternalTerminal
