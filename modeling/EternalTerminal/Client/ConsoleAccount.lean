import EternalTerminal.Client.DirectConsole

/-!
# Client — the account of the direct console

At most the first queued entry is partly written, and what was written of it is the end of the file (`PartOf`).

Main result: `direct_console_exact`.
-/

namespace EternalTerminal
open List

/-! ### What an interrupt keeps -/

/-- What a filter keeps is part of what it is given, in order. -/
theorem TerminalStream.kept_sublist (s : TerminalStream) (bytes : Bytes) : (s.filter bytes).kept.Sublist bytes := by
  have hlin : ((s.fates bytes).map Fate.line).flatten = bytes := by
    rw [fates, map_line_fatesFrom, splitLines_flatten]
  rw [filter, (partition_eq s bytes false).1, keptBytes, flatMap_def]
  conv_rhs => rw [← hlin]
  exact (filter_sublist.map Fate.line).flatten

/-! ### The queue -/

section Queue
variable {entry : OutputEntry} {queue : List OutputEntry}

@[simp] theorem unsentOf_cons (entry : OutputEntry) (queue : List OutputEntry) :
    unsentOf (entry :: queue) = entry.unsent ++ unsentOf queue := rfl

theorem unsentOf_singleton (entry : OutputEntry) : unsentOf [entry] = entry.unsent := append_nil _

theorem unsentOf_append (queue queue' : List OutputEntry) :
    unsentOf (queue ++ queue') = unsentOf queue ++ unsentOf queue' := by
  rw [unsentOf, map_append, flatten_append]
  rfl

theorem length_unsentOf (queue : List OutputEntry) :
    (unsentOf queue).length = (queue.map fun e => e.unsent.length).sum := by
  rw [unsentOf, length_flatten, map_map]
  rfl

theorem OutputEntry.length_unsent (entry : OutputEntry) : entry.unsent.length = entry.bytes.length - entry.sent :=
  length_drop

theorem OutputEntry.unsent_ne_nil (h : entry.sent < entry.bytes.length) : entry.unsent ≠ [] := by
  refine ne_nil_of_length_pos ?_
  rw [entry.length_unsent]
  omega

/-- Every entry has bytes left, and only the first one is partly written. -/
structure EntriesSound (queue : List OutputEntry) : Prop where
  live : ∀ entry ∈ queue, entry.sent < entry.bytes.length
  whole : ∀ entry ∈ queue.tail, entry.sent = 0

theorem EntriesSound.nil : EntriesSound [] := ⟨nofun, nofun⟩

theorem EntriesSound.tail (h : EntriesSound (entry :: queue)) : EntriesSound queue :=
  ⟨fun e he => h.live e (mem_cons_of_mem _ he), fun e he => h.whole e (mem_of_mem_tail he)⟩

theorem EntriesSound.head (h : EntriesSound (entry :: queue)) {entry' : OutputEntry}
    (hlive : entry'.sent < entry'.bytes.length) : EntriesSound (entry' :: queue) :=
  ⟨forall_mem_cons.mpr ⟨hlive, h.tail.live⟩, h.whole⟩

theorem EntriesSound.unsent_eq_nil (h : EntriesSound queue) (hemp : unsentOf queue = []) : queue = [] := by
  cases queue with
  | nil => rfl
  | cons entry queue =>
    exact absurd (append_eq_nil_iff.mp hemp).1 (OutputEntry.unsent_ne_nil (h.live entry mem_cons_self))

theorem EntriesSound.sublist {queue' : List OutputEntry} (h : EntriesSound queue) (hsub : queue' <+ queue) :
    EntriesSound queue' :=
  ⟨fun e he => h.live e (hsub.subset he), fun e he => h.whole e (hsub.tail.subset he)⟩

theorem EntriesSound.concat (h : EntriesSound queue) {bytes : Bytes} (hne : bytes ≠ []) :
    EntriesSound (queue ++ [⟨bytes, 0⟩]) := by
  constructor
  · exact forall_mem_append.mpr ⟨h.live, forall_mem_singleton.mpr (length_pos_iff.mpr hne)⟩
  · cases queue with
    | nil => exact nofun
    | cons entry queue => exact forall_mem_append.mpr ⟨h.whole, forall_mem_singleton.mpr rfl⟩

namespace ConsoleState

theorem retire_live (h : EntriesSound queue) : retire queue = (queue, 0) := by
  cases queue with
  | nil => rfl
  | cons entry queue => rw [retire, if_neg (Nat.ne_of_lt (h.live entry mem_cons_self))]

theorem retire_done (h : EntriesSound queue) (hdone : entry.sent = entry.bytes.length) :
    (retire (entry :: queue)).1 = queue := by
  rw [retire, if_pos hdone, retire_live h]

/-! ### Writing from the queue -/

/-- What is on the file of the first entry is the end of `before`. -/
def PartOf (queue : List OutputEntry) (before : Bytes) : Prop :=
  ∀ entry, queue.head? = some entry → entry.bytes.take entry.sent <:+ before

/-- A queue whose first `count` unsent bytes were written. -/
structure Delivered (s : ConsoleState) (count : Nat) (r : ConsoleState) : Prop where
  unsent : r.unsent = s.unsent.drop count
  sound : EntriesSound r.queue
  part : ∀ before, PartOf s.queue before → PartOf r.queue (before ++ s.unsent.take count)
  pieces : ∃ pieces : List Bytes, pieces.flatten = s.unsent.take count ∧
    r.stream = pieces.foldl TerminalStream.observe s.stream
  rest : r.bytes = s.bytes ∧ r.written = s.written ∧ r.stopping = s.stopping ∧ r.error = s.error ∧
    r.skipUntilNewline = s.skipUntilNewline

variable {s : ConsoleState}

theorem Delivered.none (h : EntriesSound s.queue) : Delivered s 0 s where
  unsent := rfl
  sound := h
  part before hpart entry hent := by
    rw [take_zero, append_nil]
    exact hpart entry hent
  pieces := ⟨[], rfl, rfl⟩
  rest := ⟨rfl, rfl, rfl, rfl, rfl⟩

theorem Delivered.trans {r t : ConsoleState} {m n : Nat} (h : Delivered s m r) (h' : Delivered r n t) :
    Delivered s (m + n) t where
  unsent := by rw [h'.unsent, h.unsent, drop_drop]
  sound := h'.sound
  part before hpart := by
    have hnext := h'.part _ (h.part before hpart)
    rwa [h.unsent, append_assoc, ← take_add] at hnext
  pieces := by
    obtain ⟨pieces, hflat, hstr⟩ := h.pieces
    obtain ⟨pieces', hflat', hstr'⟩ := h'.pieces
    refine ⟨pieces ++ pieces', ?_, ?_⟩
    · rw [flatten_append, hflat, hflat', h.unsent, ← take_add]
    · rw [foldl_append, ← hstr, hstr']
  rest := by
    obtain ⟨h₁, h₂, h₃, h₄, h₅⟩ := h'.rest
    rw [h₁, h₂, h₃, h₄, h₅]
    exact h.rest

section Round
variable {count : Nat} (h : EntriesSound s.queue) (hqueue : s.queue = entry :: queue)
include h hqueue

/-- The file took a part of the first entry. -/
theorem delivered_part (hlt : count < entry.unsent.length) :
    Delivered s count { s with
      queue := { entry with sent := entry.sent + count } :: queue
      stream := s.stream.observe (entry.unsent.take count) } := by
  have hfro : s.unsent.take count = entry.unsent.take count := by
    rw [unsent, hqueue, unsentOf_cons, take_append_of_le_length hlt.le]
  rw [entry.length_unsent] at hlt
  refine ⟨?_, ?_, fun before hpart e he => ?_, ⟨[entry.unsent.take count], ?_, rfl⟩, ⟨rfl, rfl, rfl, rfl, rfl⟩⟩
  · show unsentOf (_ :: queue) = _
    rw [unsent, hqueue, unsentOf_cons, unsentOf_cons, drop_append_of_le_length, OutputEntry.unsent,
      OutputEntry.unsent, drop_drop]
    rw [entry.length_unsent]
    exact hlt.le
  · rw [hqueue] at h
    exact h.head (show entry.sent + count < entry.bytes.length by omega)
  · cases he
    obtain ⟨front, rfl⟩ := hpart entry (by rw [hqueue]; rfl)
    refine ⟨front, ?_⟩
    rw [hfro, take_add, append_assoc]
    rfl
  · rw [flatten_singleton, hfro]

/-- The file took the rest of the first entry. -/
theorem delivered_entry {cursorReports : Nat} :
    Delivered s entry.unsent.length { s with
      queue, cursorReports
      stream := s.stream.observe entry.unsent } := by
  have hfro : s.unsent.take entry.unsent.length = entry.unsent := by
    rw [unsent, hqueue, unsentOf_cons, take_left]
  rw [hqueue] at h
  refine ⟨?_, h.tail, fun before hpart e he => ?_, ⟨[entry.unsent], ?_, rfl⟩, ⟨rfl, rfl, rfl, rfl, rfl⟩⟩
  · show unsentOf queue = _
    rw [unsent, hqueue, unsentOf_cons, drop_left]
  · -- nothing of the next entry is on the file
    have hwh := h.whole e (List.mem_of_mem_head? he)
    rw [hwh, take_zero]
    exact nil_suffix
  · rw [flatten_singleton, hfro]

end Round

theorem deliverLoop_zero (fuel : Nat) (s : ConsoleState) : deliverLoop fuel s 0 = s := by
  cases fuel with
  | zero => rfl
  | succ fuel =>
    rw [deliverLoop]
    split
    · rfl
    · rw [if_pos rfl]

variable {count : Nat} {packet kept : Bytes}

/-- The loop of `delivered`, by induction on the queue: an entry that is written as a whole is retired, and only the
last one is left in part. -/
theorem deliverLoop_spec {fuel : Nat} (h : EntriesSound s.queue) (hfuel : s.queue.length ≤ fuel)
    (hcnt : count ≤ s.unsent.length) : Delivered s count (deliverLoop fuel s count) := by
  induction fuel generalizing s count with
  | zero =>
    have hqueue : s.queue = [] := length_eq_zero_iff.mp (Nat.le_zero.mp hfuel)
    have hzero : count = 0 := by
      rw [unsent, hqueue] at hcnt
      exact Nat.le_zero.mp hcnt
    rw [hzero]
    exact .none h
  | succ fuel ih =>
    rw [deliverLoop]
    split
    next hqueue =>
      have hzero : count = 0 := by
        rw [unsent, hqueue] at hcnt
        exact Nat.le_zero.mp hcnt
      rw [hzero]
      exact .none h
    next entry queue hqueue =>
      split
      next hzero =>
        rw [hzero]
        exact .none h
      dsimp only
      have hsd := hqueue ▸ h
      rcases Nat.lt_or_ge count entry.unsent.length with hlt | hge
      · have hstop : min entry.bytes.length (entry.sent + count) = entry.sent + count := by
          rw [entry.length_unsent] at hlt
          omega
        have hwr : (entry.bytes.take (entry.sent + count)).drop entry.sent = entry.unsent.take count := by
          rw [drop_take, Nat.add_sub_cancel_left]
          rfl
        have hround := delivered_part h hqueue hlt
        rw [hstop, hwr, length_take, Nat.min_eq_left hlt.le, Nat.sub_self, retireDelivered, retire_live hround.sound]
        rw [deliverLoop_zero]
        exact hround
      · have hstop : min entry.bytes.length (entry.sent + count) = entry.bytes.length := by
          rw [entry.length_unsent] at hge
          omega
        rw [hstop, take_length]
        show Delivered s count (deliverLoop fuel (retireDelivered { s with
          queue := { entry with sent := entry.bytes.length } :: queue
          stream := s.stream.observe entry.unsent }) (count - entry.unsent.length))
        rw [retireDelivered]
        rw [retire_done hsd.tail rfl]
        generalize s.cursorReports + (retire _).2 = cursorReports
        have hround := @delivered_entry entry queue s h hqueue cursorReports
        have hrest : count - entry.unsent.length ≤ (unsentOf queue).length := by
          rw [unsent, hqueue, unsentOf_cons, length_append] at hcnt
          omega
        have hshorter : queue.length ≤ fuel := by
          rw [hqueue, length_cons] at hfuel
          omega
        have hall := hround.trans (ih hround.sound hshorter hrest)
        rwa [Nat.add_sub_cancel' hge] at hall

theorem delivered_spec (h : EntriesSound s.queue) (hcnt : count ≤ s.unsent.length) :
    Delivered { s with bytes := s.bytes - count } count (s.delivered count) :=
  deliverLoop_spec h le_rfl hcnt

/-! ### The account -/

/-- The counter and the stream agree with the queue and the file, and no write has failed. -/
structure Sound (s : ConsoleState) : Prop where
  entries : EntriesSound s.queue
  bytes : s.bytes = s.unsent.length
  part : PartOf s.queue s.written
  pieces : ∃ pieces : List Bytes, pieces.flatten = s.written ∧ s.stream = pieces.foldl TerminalStream.observe .default
  running : s.stopping = false ∧ s.error = none

theorem sound_new : new.Sound := ⟨.nil, rfl, nofun, ⟨[], rfl, rfl⟩, rfl, rfl⟩

/-- A step that takes in `accepted`: what is written comes from the front of what is unsent. -/
structure Moves (s : ConsoleState) (accepted : Bytes) (t : ConsoleState) : Prop where
  sound : t.Sound
  account : t.written ++ t.unsent = s.written ++ s.unsent ++ accepted
  more : s.written <+: t.written
  skip : t.skipUntilNewline = true → s.skipUntilNewline = true

theorem Moves.refl (h : s.Sound) : Moves s [] s := ⟨h, (append_nil _).symm, prefix_refl _, id⟩

theorem Moves.trans {t u : ConsoleState} {accepted accepted' : Bytes} (h : Moves s accepted t)
    (h' : Moves t accepted' u) : Moves s (accepted ++ accepted') u :=
  ⟨h'.sound, by rw [h'.account, h.account, append_assoc], h.more.trans h'.more, h.skip ∘ h'.skip⟩

section
variable (h : s.Sound)
include h

/-- A packet is queued, of which `sent` bytes went straight to the file. -/
theorem sound_enqueue (hne : packet ≠ []) : (s.enqueue packet 0).Sound where
  entries := h.entries.concat hne
  bytes := by
    show s.bytes + packet.length = (unsentOf (s.queue ++ [⟨packet, 0⟩])).length
    rw [unsentOf_append, length_append, h.bytes, unsentOf_singleton]
    rfl
  part entry hent := by
    cases hqueue : s.queue with
    | nil =>
      rw [enqueue, hqueue] at hent
      cases hent
      exact nil_suffix
    | cons first queue =>
      refine h.part entry ?_
      rw [enqueue, hqueue] at hent
      rw [hqueue]
      exact hent
  pieces := h.pieces
  running := h.running

theorem moves_enqueue (hne : packet ≠ []) : Moves s packet (s.enqueue packet 0) := by
  refine ⟨sound_enqueue h hne, ?_, prefix_refl _, id⟩
  show s.written ++ unsentOf (s.queue ++ [⟨packet, 0⟩]) = _
  rw [unsentOf_append, ← append_assoc, unsentOf_singleton]
  rfl

theorem pieces_observe (piece : Bytes) : ∃ pieces : List Bytes, pieces.flatten = s.written ++ piece ∧
      s.stream.observe piece = pieces.foldl TerminalStream.observe .default := by
  obtain ⟨pieces, hflat, hstr⟩ := h.pieces
  refine ⟨pieces ++ [piece], ?_, ?_⟩
  · rw [flatten_append, hflat, flatten_singleton]
  · rw [foldl_append, ← hstr]
    rfl

/-- A packet with nothing ahead of it is written through, as far as the file goes. -/
theorem moves_writeThrough (hqueue : s.queue = []) (hle : count ≤ packet.length) {cursorReports : Nat} :
    Moves s packet
      (let s := { s with
        written := s.written ++ packet.take count
        stream := s.stream.observe (packet.take count) }
      if count = packet.length then { s with cursorReports } else s.enqueue packet count) := by
  have huns : s.unsent = [] := by rw [unsent, hqueue]; rfl
  have hbs : s.bytes = 0 := by rw [h.bytes, huns]; rfl
  split
  next hall =>
    rw [hall, take_length]
    refine ⟨{ h with part := ?_, pieces := pieces_observe h packet }, ?_, prefix_append _ _, id⟩
    · rw [hqueue]
      exact nofun
    · show s.written ++ packet ++ s.unsent = _
      rw [huns, append_nil, append_nil]
  next hpart =>
    have hent : (⟨packet, count⟩ : OutputEntry).unsent = packet.drop count := rfl
    refine ⟨⟨⟨?_, ?_⟩, ?_, ?_, pieces_observe h _, h.running⟩, ?_, prefix_append _ _, id⟩
    · intro entry hmem
      rw [enqueue, hqueue] at hmem
      rw [mem_singleton.mp hmem]
      exact Nat.lt_of_le_of_ne hle hpart
    · rw [enqueue, hqueue]
      exact nofun
    · show s.bytes + (packet.length - count) = (unsentOf (s.queue ++ _)).length
      rw [hqueue, hbs, nil_append, unsentOf_singleton, hent, length_drop, Nat.zero_add]
    · intro entry hhead
      rw [enqueue, hqueue] at hhead
      cases hhead
      exact suffix_append _ _
    · show s.written ++ packet.take count ++ unsentOf (s.queue ++ _) = _
      rw [hqueue, huns, nil_append, unsentOf_singleton, hent, append_nil, append_assoc, take_append_drop]

theorem moves_writePacket {answer : ConsoleAnswer} (hclean : answer.clean = true) (packet : Bytes) :
    Moves s packet (s.writePacket answer packet) := by
  unfold writePacket
  split
  next hnil =>
    rw [hnil]
    exact .refl h
  rename_i hne
  split
  next hqueue =>
    cases answer with
    | again => exact moves_enqueue h hne
    | failed => cases hclean
    | takes count =>
      have hlen : 0 < packet.length := length_pos_iff.mpr hne
      have hcnt : 0 < count := Nat.pos_of_ne_zero (by simpa [ConsoleAnswer.clean] using hclean)
      dsimp only
      rw [if_neg (by omega)]
      exact moves_writeThrough h hqueue (Nat.min_le_right _ _)
  · exact moves_enqueue h hne

/-- One write of `write_queued`. -/
theorem moves_delivered (hle : count ≤ s.unsent.length) :
    Moves s [] ({ s with written := s.written ++ s.unsent.take count }.delivered count) := by
  have hspec := @delivered_spec { s with written := s.written ++ s.unsent.take count } count h.entries hle
  obtain ⟨hbs, hwr, hstopping, herr, hskip⟩ := hspec.rest
  refine ⟨⟨hspec.sound, ?_, ?_, ?_, ?_⟩, ?_, ?_, hskip.symm.trans⟩
  · rw [hbs, hspec.unsent, length_drop]
    exact congrArg (· - count) h.bytes
  · rw [hwr]
    exact hspec.part s.written h.part
  · obtain ⟨pieces, hflat, hstr⟩ := h.pieces
    obtain ⟨pieces', hflat', hstr'⟩ := hspec.pieces
    refine ⟨pieces ++ pieces', ?_, ?_⟩
    · rw [flatten_append, hflat, hflat', hwr]
      rfl
    · rw [foldl_append, ← hstr, hstr']
  · exact ⟨hstopping.trans h.running.1, herr.trans h.running.2⟩
  · rw [hwr, hspec.unsent, append_nil, append_assoc]
    exact congrArg (s.written ++ ·) (take_append_drop count s.unsent)
  · rw [hwr]
    exact prefix_append _ _

/-- **Writing from the queue**, by induction on the writes. -/
theorem moves_writeQueued {answers : List ConsoleAnswer} (hclean : answers.all ConsoleAnswer.clean = true) :
    Moves s [] (s.writeQueued answers).2 := by
  induction answers generalizing s with
  | nil => exact .refl h
  | cons answer answers ih =>
    rw [all_cons, Bool.and_eq_true] at hclean
    rw [writeQueued]
    split
    · exact .refl h
    rename_i hqueue
    cases answer with
    | again => exact .refl h
    | failed => cases hclean.1
    | takes count =>
      have hcnt : 0 < count := Nat.pos_of_ne_zero (by simpa [ConsoleAnswer.clean] using hclean.1)
      -- what is offered is the front of what is unsent, and is not empty
      have hspl : unsentOf (s.queue.take writeSlices) ++ unsentOf (s.queue.drop writeSlices) = s.unsent := by
        rw [← unsentOf_append, take_append_drop]
        rfl
      have hoffered : 0 < (unsentOf (s.queue.take writeSlices)).length := by
        refine length_pos_iff.mpr fun hemp => hqueue ?_
        have htak := (h.entries.sublist (take_sublist writeSlices _)).unsent_eq_nil hemp
        exact (take_eq_nil_iff.mp htak).resolve_left (by decide)
      dsimp only
      rw [if_neg (by omega)]
      have hle : min count (unsentOf (s.queue.take writeSlices)).length ≤ s.unsent.length := by
        rw [← hspl, length_append]
        omega
      have htake : (unsentOf (s.queue.take writeSlices)).take (min count (unsentOf (s.queue.take writeSlices)).length) =
          s.unsent.take (min count (unsentOf (s.queue.take writeSlices)).length) := by
        rw [← hspl, take_append_of_le_length (Nat.min_le_right _ _)]
      have hmv := moves_delivered h hle
      rw [htake]
      split
      · exact hmv
      · exact hmv.trans (ih hmv.sound hclean.2)

end

/-! ### Packets and interrupts -/

theorem Sound.flags (h : s.Sound) (skip waiting : Bool) :
    { s with skipUntilNewline := skip, waitingForCapacity := waiting }.Sound :=
  { h with }

section tryWrite
variable {mode : ClientFlowMode} (hmode : mode ≠ .discard) {answer : ConsoleAnswer} (hclean : answer.clean = true)
include hmode hclean

/-- A packet is admitted as a whole, or not at all. -/
theorem moves_takeIn (h : s.Sound) (retained : Bytes) :
    Moves s (if (s.takeIn mode answer retained).1 then retained else []) (s.takeIn mode answer retained).2 := by
  unfold takeIn
  dsimp only
  split
  · exact ⟨h.flags _ _, (append_nil _).symm, prefix_refl _, id⟩
  · have hmv := moves_writePacket (h.flags false false) hclean retained
    exact { hmv with skip := fun hskip => nomatch (hmv.skip hskip) }

/-- **Accepting a packet**: after an interrupt the rest of a cut line is skipped; otherwise a packet that is accepted is
accepted as a whole. -/
theorem moves_tryWrite (h : s.Sound) (bytes : Bytes) :
    ∃ taken, Moves s taken (s.tryWrite mode answer bytes).2 ∧
      ((s.tryWrite mode answer bytes).1 ≠ .ok true → taken = []) ∧
      ((s.tryWrite mode answer bytes).1 = .ok true →
        taken.Sublist bytes ∧ (s.skipUntilNewline = false → taken = bytes)) := by
  unfold tryWrite
  split
  · exact ⟨[], .refl h, fun _ => rfl, nofun⟩
  rename_i hlong
  have hretained : bytes.drop (bytes.length - consoleOutputBytes) = bytes := by
    have hle : bytes.length ≤ consoleOutputBytes := by
      simpa [hmode] using hlong
    rw [Nat.sub_eq_zero_of_le hle, drop_zero]
  rw [h.running.2, h.running.1, hretained]
  dsimp only
  rw [if_neg Bool.false_ne_true]
  split
  next hskip =>
    split
    · exact ⟨[], .refl h, fun _ => rfl, fun _ => ⟨nil_sublist _, fun hno => by rw [hno] at hskip; cases hskip⟩⟩
    rename_i rest hrest
    have hsub : rest.Sublist bytes := by
      have hdrop := dropWhile_sublist (l := bytes) (· != newline)
      rw [hrest] at hdrop
      exact (sublist_cons_self _ _).trans hdrop
    have hmv := moves_takeIn hmode hclean h rest
    cases hadm : (s.takeIn mode answer rest).1 with
    | true =>
      rw [hadm] at hmv
      refine ⟨rest, hmv, fun hno => absurd rfl hno, fun _ => ⟨hsub, fun hno => ?_⟩⟩
      rw [hno] at hskip
      cases hskip
    | false =>
      rw [hadm] at hmv
      exact ⟨[], hmv, fun _ => rfl, nofun⟩
  · have hmv := moves_takeIn hmode hclean h bytes
    cases hadm : (s.takeIn mode answer bytes).1 with
    | true =>
      rw [hadm] at hmv
      exact ⟨bytes, hmv, fun hno => absurd rfl hno, fun _ => ⟨List.Sublist.refl _, fun _ => rfl⟩⟩
    | false =>
      rw [hadm] at hmv
      exact ⟨[], hmv, fun _ => rfl, nofun⟩

end tryWrite

theorem unsent_refill {entry : OutputEntry} {bytes : Bytes} (h : entry.sent ≤ entry.bytes.length) :
    OutputEntry.unsent { entry with bytes := entry.bytes.take entry.sent ++ bytes } = bytes :=
  drop_left' (length_take_of_le h)

/-- The entries are filled with what was kept, and nothing of it is left over. -/
theorem unsent_recut (h : EntriesSound queue) (hle : kept.length ≤ (unsentOf queue).length) :
    unsentOf (recut queue kept) = kept := by
  induction queue generalizing kept with
  | nil => exact (eq_nil_of_length_eq_zero (Nat.le_zero.mp hle)).symm
  | cons entry queue ih =>
    have hlive := h.live entry mem_cons_self
    rw [unsentOf_cons, length_append] at hle
    rw [recut]
    split
    next hnone =>
      have hlen := entry.length_unsent
      have hemp : kept = [] := eq_nil_of_length_eq_zero (by omega)
      subst hemp
      exact ih h.tail (Nat.zero_le _)
    rw [unsentOf_cons, ih h.tail]
    · rw [unsent_refill hlive.le]
      exact take_append_drop _ _
    · rw [length_drop]
      omega

/-- Entries of which nothing was written are filled, or go. -/
theorem recut_whole (h : ∀ e ∈ queue, e.sent = 0) :
    ∀ e ∈ recut queue kept, e.sent = 0 ∧ e.bytes ≠ [] := by
  induction queue generalizing kept with
  | nil => exact nofun
  | cons entry queue ih =>
    have hrest := fun e he => h e (mem_cons_of_mem _ he)
    have hsent := h entry mem_cons_self
    intro e he
    rw [recut] at he
    split at he
    · exact ih hrest e he
    rename_i hsome
    rcases mem_cons.mp he with rfl | he
    · refine ⟨hsent, fun hemp => hsome ⟨?_, hsent⟩⟩
      have hlen := congrArg List.length (append_eq_nil_iff.mp hemp).2
      rw [length_take, length_nil] at hlen
      omega
    · exact ih hrest e he

theorem sound_whole (h : ∀ e ∈ queue, e.sent = 0 ∧ e.bytes ≠ []) (before : Bytes) :
    EntriesSound queue ∧ PartOf queue before := by
  refine ⟨⟨fun e he => ?_, fun e he => (h e (mem_of_mem_tail he)).1⟩, fun e he => ?_⟩
  · rw [(h e he).1]
    exact length_pos_iff.mpr (h e he).2
  · rw [(h e (List.mem_of_mem_head? he)).1, take_zero]
    exact nil_suffix

/-- After an interrupt the queue is as before a write: an entry of which nothing is left is retired. -/
theorem sound_recut {before : Bytes} (h : EntriesSound queue) (hpart : PartOf queue before) :
    EntriesSound (retire (recut queue kept)).1 ∧ PartOf (retire (recut queue kept)).1 before := by
  cases queue with
  | nil => exact ⟨.nil, nofun⟩
  | cons entry queue =>
    have hlive := h.live entry mem_cons_self
    have hwh : ∀ kept, ∀ e ∈ recut queue kept, e.sent = 0 ∧ e.bytes ≠ [] := fun kept => recut_whole h.whole
    have hrest := fun kept => sound_whole (hwh kept) before
    rw [recut]
    split
    · rw [retire_live (hrest kept).1]
      exact hrest kept
    generalize hfil : OutputEntry.mk _ _ = filled
    have hkept : filled.bytes.take filled.sent = entry.bytes.take entry.sent := by
      rw [← hfil]
      exact take_left' (length_take_of_le hlive.le)
    by_cases hdone : filled.sent = filled.bytes.length
    · rw [retire_done (hrest _).1 hdone]
      exact hrest _
    have hle : filled.sent ≤ filled.bytes.length := by
      rw [← hfil, length_append, length_take_of_le hlive.le]
      exact Nat.le_add_right _ _
    have hsd : EntriesSound (filled :: recut queue (kept.drop (min kept.length entry.unsent.length))) := by
      exact ⟨forall_mem_cons.mpr ⟨Nat.lt_of_le_of_ne hle hdone, (hrest _).1.live⟩, fun e he => (hwh _ e he).1⟩
    rw [retire_live hsd]
    refine ⟨hsd, fun e he => ?_⟩
    cases he
    rw [hkept]
    exact hpart entry rfl

theorem unsentOf_retire (queue : List OutputEntry) : unsentOf (retire queue).1 = unsentOf queue := by
  induction queue with
  | nil => rfl
  | cons entry queue ih =>
    rw [retire]
    split
    next hdone =>
      rw [unsentOf_cons, OutputEntry.unsent, hdone, drop_length, nil_append]
      exact ih
    · rfl

/-- **An interrupt** leaves what the filter keeps. -/
theorem sound_interrupt (h : s.Sound) :
    s.interrupt.2.Sound ∧ s.interrupt.2.unsent = (s.stream.filter s.unsent).kept ∧
      s.interrupt.2.written = s.written := by
  have hkept := (s.stream.kept_sublist s.unsent).length_le
  have huns : s.interrupt.2.unsent = (s.stream.filter s.unsent).kept := by
    show unsentOf (retire (recut s.queue _)).1 = _
    rw [unsentOf_retire, unsent_recut h.entries hkept]
  obtain ⟨hentries, hpart⟩ := sound_recut h.entries h.part
  exact ⟨⟨hentries, congrArg List.length huns.symm, hpart, h.pieces, h.running⟩, huns, rfl⟩

end ConsoleState
end Queue

/-! ### Runs of the console -/

namespace ConsoleRun
open ConsoleState

/-- The file and the queue against what was accepted. -/
structure Sound (s : ConsoleRun) : Prop where
  state : s.state.Sound
  part : (s.state.written ++ s.state.unsent).Sublist s.accepted.flatten
  whole : s.interrupted = false →
    s.state.skipUntilNewline = false ∧ s.state.written ++ s.state.unsent = s.accepted.flatten

theorem sound_start : start.Sound := ⟨sound_new, List.Sublist.refl _, fun _ => ⟨rfl, rfl⟩⟩

variable {mode : ClientFlowMode} {s : ConsoleRun}

/-- A step that takes in `taken` of what is accepted. -/
theorem Sound.moves {state : ConsoleState} {accepted : List Bytes} {taken : Bytes} (h : s.Sound)
    (hmv : Moves s.state taken state) (hpart : taken.Sublist accepted.flatten)
    (hwh : s.state.skipUntilNewline = false → taken = accepted.flatten) :
    Sound { s with state, accepted := s.accepted ++ accepted } where
  state := hmv.sound
  part := by
    show (state.written ++ state.unsent).Sublist _
    rw [hmv.account, flatten_append]
    exact h.part.append hpart
  whole hno := by
    obtain ⟨hskip, hacc⟩ := h.whole hno
    refine ⟨Bool.eq_false_iff.mpr fun hset => ?_, ?_⟩
    · rw [hmv.skip hset] at hskip
      cases hskip
    · show state.written ++ state.unsent = _
      rw [hmv.account, flatten_append, hacc, hwh hskip]

/-- A step that accepts nothing. -/
theorem Sound.still {state : ConsoleState} (h : s.Sound) (hmv : Moves s.state [] state) : Sound { s with state } := by
  have hsd := @Sound.moves s state [] [] h hmv (List.Sublist.refl _) fun _ => rfl
  rwa [append_nil] at hsd

theorem sound_apply (hmode : mode ≠ .discard) (h : s.Sound) {e : ConsoleEvent} (hclean : e.clean = true) :
    (s.apply mode e).Sound := by
  cases e with
  | tryWrite bytes answer =>
    obtain ⟨taken, hmv, href, hacc⟩ := moves_tryWrite hmode hclean h.state bytes
    rw [apply]
    dsimp only
    split
    next hok =>
      obtain ⟨hpart, hwh⟩ := hacc hok
      refine h.moves hmv ?_ fun hskip => ?_
      · rw [flatten_singleton]
        exact hpart
      · rw [flatten_singleton]
        exact hwh hskip
    next hno =>
      have hnone := href fun hok => hno hok
      subst hnone
      exact h.still hmv
  | writeQueued answers => exact h.still (moves_writeQueued h.state hclean)
  | interrupt =>
    obtain ⟨hsd, huns, hwr⟩ := sound_interrupt h.state
    refine ⟨hsd, ?_, nofun⟩
    show (s.state.interrupt.2.written ++ s.state.interrupt.2.unsent).Sublist s.accepted.flatten
    rw [hwr, huns]
    exact ((List.Sublist.refl _).append (s.state.stream.kept_sublist _)).trans h.part

/-- **The direct console is exact.**  In every run without a write error, in the modes that drop nothing: without
interrupts the file and the unsent bytes are the accepted packets; with interrupts anywhere, the counter is the number
of unsent bytes, the stream has observed the file, and no byte is written twice; an interrupt leaves what the filter
keeps. -/
theorem direct_console_exact (hmode : mode ≠ .discard) (hrun : Relation.ReflTransGen (Step mode) start s) :
    (s.interrupted = false → s.state.written ++ s.state.unsent = s.accepted.flatten) ∧
    s.state.bytes = (s.state.queue.map fun entry => entry.unsent.length).sum ∧
    (∃ pieces : List Bytes, pieces.flatten = s.state.written ∧
      s.state.stream = pieces.foldl TerminalStream.observe .default) ∧
    ((s.state.written ++ s.state.unsent).Sublist s.accepted.flatten ∧
      (∀ entry ∈ s.state.queue, entry.sent ≠ 0 →
        s.state.queue.head? = some entry ∧ entry.bytes.take entry.sent <:+ s.state.written) ∧
      ∀ answers : List ConsoleAnswer, answers.all ConsoleAnswer.clean = true →
        s.state.written <+: (s.state.writeQueued answers).2.written ∧
        (s.state.writeQueued answers).2.written ++ (s.state.writeQueued answers).2.unsent =
          s.state.written ++ s.state.unsent) ∧
    s.state.interrupt.2.unsent = (s.state.stream.filter s.state.unsent).kept ∧
    s.state.interrupt.2.written = s.state.written := by
  have h : s.Sound := reach_invariant (P := Sound) hrun sound_start fun a b ha ⟨e, hclean, hb⟩ =>
    hb ▸ sound_apply hmode ha hclean
  refine ⟨fun hno => (h.whole hno).2, ?_, h.state.pieces,
    ⟨h.part, fun entry hentry hsent => ?_, fun answers hclean => ?_⟩,
    (sound_interrupt h.state).2⟩
  · rw [h.state.bytes]
    exact length_unsentOf _
  · cases hqueue : s.state.queue with
    | nil =>
      rw [hqueue] at hentry
      cases hentry
    | cons first queue =>
      rw [hqueue] at hentry
      rcases mem_cons.mp hentry with rfl | htail
      · exact ⟨rfl, h.state.part _ (by rw [hqueue]; rfl)⟩
      · refine absurd (h.state.entries.whole entry ?_) hsent
        rw [hqueue]
        exact htail
  · have hmoves := moves_writeQueued h.state hclean
    have haccount := hmoves.account
    rw [append_nil] at haccount
    exact ⟨hmoves.more, haccount⟩

/-- Two packets: the file takes a part of the first one, later the rest and a byte of the second one. -/
def twoPackets : List ConsoleEvent :=
  [.tryWrite (ascii "one\n") (.takes 2), .tryWrite (ascii "two\n") .again, .writeQueued [.takes 3]]

/-- A third packet, an interrupt before it is written, and a fourth one. -/
def interruptedPackets : List ConsoleEvent :=
  twoPackets ++ [.tryWrite (ascii "three\n") .again, .interrupt, .tryWrite (ascii "four\n") .again,
    .writeQueued [.takes 4]]

theorem direct_console_exact_two_packets :
    (let s := twoPackets.foldl (apply .backpressure) start
     s.state.written ++ s.state.unsent = ascii "one\ntwo\n" ∧ s.state.bytes = 3) ∧
    let s := interruptedPackets.foldl (apply .backpressure) start
    s.interrupted = true ∧ s.state.written = ascii "one\ntfour" ∧
      (s.state.written ++ s.state.unsent).Sublist s.accepted.flatten ∧ s.state.bytes = 1 ∧
      s.state.interrupt.2.unsent = (s.state.stream.filter s.state.unsent).kept := by
  have hrun (es : List ConsoleEvent) (hes : AllowedRun (apply .backpressure) (fun _ e => e.clean = true) start es) :
      Relation.ReflTransGen (Step .backpressure) start (es.foldl (apply .backpressure) start) :=
    reach_of_events (fun _ e he => ⟨e, he, rfl⟩) es hes
  have htwo := direct_console_exact (by decide) (hrun twoPackets ⟨rfl, rfl, rfl, trivial⟩)
  have hcut := direct_console_exact (by decide)
    (hrun interruptedPackets ⟨rfl, rfl, rfl, rfl, rfl, rfl, rfl, trivial⟩)
  exact ⟨⟨(htwo.1 rfl).trans (by decide +kernel), htwo.2.1.trans (by decide +kernel)⟩, rfl, by decide +kernel,
    hcut.2.2.2.1.1, hcut.2.1.trans (by decide +kernel), hcut.2.2.2.2.1⟩

end ConsoleRun

end EternalTerminal
