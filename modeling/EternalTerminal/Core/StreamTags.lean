import EternalTerminal.Core.LineIntegrity

/-!
# Core — stdout and stderr through filters and promotions

Every byte of the terminal lane is of stdout or of stderr, as the flag of its packet says.  An interrupt drops some
of the queued bytes and a promotion reorders them, whichever stream they are of; what is left is then laid over the
packets as they stood, with their flags.

Main results: `streams_kept_iff`, `flush_swaps_streams`.
-/

namespace EternalTerminal
open List OutputQueue

/-! ### Selecting by a mask -/

/-- The entries at which the mask is set. -/
def select {α : Type} (mask : List Bool) (entries : List α) : List α :=
  ((mask.zip entries).filter Prod.fst).map Prod.snd

section Select

variable {α β : Type}

theorem select_map (f : α → β) (mask : List Bool) (entries : List α) :
    select mask (entries.map f) = (select mask entries).map f := by
  simp [select, zip_map_right, filter_map, Function.comp_def]

theorem select_append {mask₁ : List Bool} {entries₁ : List α} (h : mask₁.length = entries₁.length) (mask₂ : List Bool)
    (entries₂ : List α) :
    select (mask₁ ++ mask₂) (entries₁ ++ entries₂) = select mask₁ entries₁ ++ select mask₂ entries₂ := by
  simp [select, zip_append h]

/-- A part of the entries that is selected as a whole or not at all. -/
theorem select_const (kept : Bool) (entries : List α) :
    select (entries.map fun _ => kept) entries = if kept then entries else [] := by
  induction entries with
  | nil => cases kept <;> rfl
  | cons entry entries ih =>
    have hcons : select ([kept] ++ entries.map fun _ => kept) ([entry] ++ entries) =
        select [kept] [entry] ++ select (entries.map fun _ => kept) entries :=
      select_append (by rfl : [kept].length = [entry].length) _ _
    rw [map_cons]
    refine hcons.trans ?_
    rw [ih]
    cases kept <;> rfl

theorem map_snd_zip_isPrefix (left : List α) (right : List β) : (left.zip right).map Prod.snd <+: right := by
  induction left generalizing right with
  | nil => exact List.nil_prefix
  | cons a left ih =>
    cases right with
    | nil => exact List.nil_prefix
    | cons b right => exact cons_prefix_cons.mpr ⟨rfl, ih right⟩

/-- Entries laid over `tags` are the pairs they were exactly when their own tags begin `tags`. -/
theorem zip_eq_iff (pairs : List (α × β)) (tags : List β) :
    (pairs.map Prod.fst).zip tags = pairs ↔ pairs.map Prod.snd <+: tags := by
  constructor
  · intro h
    have hprefix := map_snd_zip_isPrefix (pairs.map Prod.fst) tags
    rwa [h] at hprefix
  · rintro ⟨rest, rfl⟩
    induction pairs with
    | nil => rfl
    | cons pair pairs ih =>
      rw [map_cons, map_cons, cons_append, zip_cons_cons, ih]

end Select

/-! ### The bytes of lines by their fates -/

namespace TerminalStream

/-- For every byte of the lines whether its line is kept. -/
def keptMask (fates : List Fate) : List Bool := fates.flatMap fun f => f.line.map fun _ => f.kept

theorem length_keptMask (fates : List Fate) : (keptMask fates).length = (fates.flatMap Fate.line).length := by
  simp [keptMask, length_flatMap]

theorem select_keptMask (choose : Bool → Bool) (fates : List Fate) :
    select ((keptMask fates).map choose) (fates.flatMap Fate.line) =
      (fates.filter fun f => choose f.kept).flatMap Fate.line := by
  induction fates with
  | nil => rfl
  | cons f fates ih =>
    have hmask : (keptMask (f :: fates)).map choose =
        (f.line.map fun _ => choose f.kept) ++ (keptMask fates).map choose := by
      simp [keptMask]
    rw [hmask, flatMap_cons, select_append (length_map _), ih, select_const]
    cases hchoose : choose f.kept <;> simp [hchoose]

section
variable (s : TerminalStream) (bytes : Bytes)

theorem flatMap_line_fates : (s.fates bytes).flatMap Fate.line = bytes := by
  rw [flatMap_def, fates, map_line_fatesFrom, splitLines_flatten]

/-- The bytes of kept lines. -/
theorem select_kept : select (keptMask (s.fates bytes)) bytes = keptBytes (s.fates bytes) := by
  have h := select_keptMask id (s.fates bytes)
  rwa [map_id, flatMap_line_fates] at h

/-- The bytes of the other lines. -/
theorem select_dropped : select ((keptMask (s.fates bytes)).map not) bytes = droppedBytes (s.fates bytes) := by
  have h := select_keptMask not (s.fates bytes)
  rwa [flatMap_line_fates] at h

end

end TerminalStream

namespace OutputQueue
open TerminalStream

/-! ### What is left of the lane, and in which order -/

/-- The bytes of the terminal lane, each with the flag of its stream. -/
def lane (q : OutputQueue) : List (UInt8 × Bool) := q.terminal.flatMap taggedBytes

/-- The flags of the lane. -/
def tags (q : OutputQueue) : List Bool := q.lane.map Prod.snd

/-- There is something to filter. -/
def flushes (q : OutputQueue) (threshold : Nat) : Bool :=
  (terminalBodies q.terminal).isSome && !decide (q.queued.isEmpty ∨ q.queued.length < threshold)

/-- Of the entries, one for each queued byte, those that a filter leaves. -/
def flushed {α : Type} (q : OutputQueue) (threshold : Nat) (entries : List α) : List α :=
  if q.flushes threshold then select (keptMask (q.stream.fates q.queued)) entries else entries

/-- The entries, one for each queued byte, in the order in which a promotion leaves them. -/
def promoted {α : Type} (q : OutputQueue) (entries : List α) : List α :=
  if q.promotes then
    let mask := keptMask (q.stream.fates (q.stream.completePart q.queued))
    select mask entries ++ select (mask.map not) entries ++ entries.drop mask.length
  else entries

theorem queued_eq (q : OutputQueue) : q.queued = q.lane.map Prod.fst := outputOf_flatMap q.terminal

theorem queued_zip_tags (q : OutputQueue) : q.queued.zip q.tags = q.lane := by
  rw [queued_eq]
  exact (zip_eq_iff _ _).mpr (prefix_refl _)

variable {q q' : OutputQueue} {α β : Type}

theorem flushed_map (f : α → β) (q : OutputQueue) (threshold : Nat) (entries : List α) :
    q.flushed threshold (entries.map f) = (q.flushed threshold entries).map f := by
  unfold flushed
  split
  · exact select_map f _ entries
  · rfl

theorem promoted_map (f : α → β) (q : OutputQueue) (entries : List α) :
    q.promoted (entries.map f) = (q.promoted entries).map f := by
  unfold promoted
  split
  · simp only [select_map, map_append, map_drop]
  · rfl

/-! ### The flags go by position -/

/-- **A filter** lays the bytes it leaves over the flags as they stood. -/
theorem filterTerminal_lane {threshold dropped : Nat} (h : q.filterTerminal threshold = some (dropped, q')) :
    q'.lane = (q.flushed threshold q.queued).zip q.tags := by
  unfold filterTerminal at h
  unfold flushed flushes
  cases hbod : terminalBodies q.terminal with
  | none =>
    rw [hbod] at h
    cases h
    exact q.queued_zip_tags.symm
  | some bodies =>
    have hbs : bodies.flatMap Prod.fst = q.queued := terminalBodies_queued hbod
    obtain ⟨htag, hlen⟩ := terminalBodies_tagged hbod
    rw [hbod] at h
    dsimp only at h
    rw [hbs] at h
    rw [Option.isSome_some, Bool.true_and]
    split at h
    next hfew =>
      cases h
      rw [decide_eq_true hfew]
      exact q.queued_zip_tags.symm
    rename_i henough
    obtain ⟨⟨terminal, bytes, packets⟩, hret, h⟩ := Option.bind_eq_some_iff.mp h
    cases h
    have hkept := (retain_tagged (fun e he => hlen _ (of_mem_zip he).2) hret).1
    rw [map_snd_zip (Nat.le_of_eq (terminalBodies_length hbod)), ← htag] at hkept
    rw [decide_eq_false henough, Bool.not_false, if_pos rfl, select_kept, ← (q.stream.partition_eq q.queued false).1]
    exact hkept

/-- Promoted bytes are shared out over the flags as they stood. -/
theorem redistribute_tagged {entries : List (Packet × Bytes × Option Bool)} {remaining : Bytes} {bytes bytes' : Nat}
    {rewritten : List Packet} (hlen : ∀ e ∈ entries, e.2.1.length < 2 ^ 64)
    (h : redistribute entries remaining bytes = some (rewritten, bytes')) :
    rewritten.flatMap taggedBytes = remaining.zip ((taggedBodies (entries.map Prod.snd)).map Prod.snd) := by
  induction entries generalizing remaining bytes bytes' rewritten with
  | nil =>
    cases h
    exact zip_nil_right.symm
  | cons entry entries ih =>
    obtain ⟨packet, body, isStderr⟩ := entry
    obtain ⟨hbody, hrest⟩ := forall_mem_cons.mp hlen
    rw [redistribute] at h
    obtain ⟨bytes₁, -, h⟩ := Option.bind_eq_some_iff.mp h
    obtain ⟨-, -, h⟩ := Option.bind_eq_some_iff.mp h
    obtain ⟨⟨rewritten₁, bytes₂⟩, hrew, h⟩ := Option.bind_eq_some_iff.mp h
    cases h
    have hfst : (remaining.take body.length).length < 2 ^ 64 := (length_take_le _ _).trans_lt hbody
    rw [tags_cons, zip_body_append, flatMap_cons, ih hrest hrew, taggedBytes_withBuffer packet hfst]

theorem length_completePart_mask (s : TerminalStream) (bytes : Bytes) :
    (keptMask (s.fates (s.completePart bytes))).length = completeLines (splitLines bytes) s 0 0 := by
  have hle := completeLines_le (splitLines bytes) s (Nat.le_refl 0)
  rw [splitLines_flatten, Nat.zero_add] at hle
  rw [length_keptMask, flatMap_line_fates, completePart, length_take, Nat.min_eq_left hle]

/-- The order that a promotion gives the queued bytes. -/
theorem promoteControl_select {s : TerminalStream} {bytes reordered : Bytes}
    (h : s.promoteControl bytes = some reordered) :
    let mask := keptMask (s.fates (s.completePart bytes))
    select mask bytes ++ select (mask.map not) bytes ++ bytes.drop mask.length = reordered := by
  intro mask
  have hlen : mask.length = completeLines (splitLines bytes) s 0 0 := length_completePart_mask s bytes
  -- past the complete part the mask selects nothing
  have hfro : ∀ choose : Bool → Bool,
      select (mask.map choose) bytes = select (mask.map choose) (s.completePart bytes) := by
    intro choose
    have hmask : (mask.map choose).length = (s.completePart bytes).length := by
      rw [length_map, length_keptMask, flatMap_line_fates]
    have happ := select_append hmask [] (bytes.drop (completeLines (splitLines bytes) s 0 0))
    rw [append_nil, completePart, take_append_drop] at happ
    exact happ.trans (append_nil _)
  have hkept := hfro id
  rw [map_id] at hkept
  rw [hkept, hfro not, select_kept, select_dropped, hlen, (promoteControl_eq h).2]

/-- **A promotion** lays the bytes in their new order over the flags as they stood. -/
theorem promoteTerminalControl_lane (h : q.promoteTerminalControl = some q') :
    q'.lane = (q.promoted q.queued).zip q.tags := by
  unfold promoted
  split
  next hprom =>
    unfold promotes at hprom
    rw [Bool.and_eq_true, Bool.and_eq_true, decide_eq_true_eq] at hprom
    obtain ⟨⟨hpend, hlg⟩, hany⟩ := hprom
    obtain ⟨bodies, hbod, hsome⟩ := (Option.any_eq_true _ _).mp hany
    obtain ⟨reordered, hord⟩ := Option.isSome_iff_exists.mp hsome
    obtain ⟨htag, hlen⟩ := terminalBodies_tagged hbod
    have hbs : bodies.flatMap Prod.fst = q.queued := terminalBodies_queued hbod
    unfold promoteTerminalControl at h
    rw [if_neg (by simp [hpend, hlg])] at h
    dsimp only at h
    rw [hbod] at h
    dsimp only at h
    rw [hord] at h
    obtain ⟨⟨terminal, bytes⟩, hrewrite, h⟩ := Option.bind_eq_some_iff.mp h
    cases h
    have hrew := redistribute_tagged (fun e he => hlen _ (of_mem_zip he).2) hrewrite
    rw [map_snd_zip (Nat.le_of_eq (terminalBodies_length hbod)), ← htag] at hrew
    rw [hbs] at hord
    dsimp only
    rw [promoteControl_select hord]
    exact hrew
  next hprom =>
    obtain ⟨pending, hsame⟩ := promoteTerminalControl_of_not_promotes (Bool.eq_false_iff.mpr hprom)
    obtain rfl := Option.some.inj (hsame.symm.trans h)
    exact q.queued_zip_tags.symm

/-- The bytes that are laid over the flags are all that is left. -/
theorem queued_of_lane {left : Bytes} (hlen : left.length ≤ q.queued.length)
    (h : q'.lane = left.zip q.tags) : q'.queued = left := by
  rw [queued_eq, h, map_fst_zip]
  rwa [tags, length_map, ← length_map Prod.fst, ← queued_eq]

theorem length_flushed_le (q : OutputQueue) (threshold : Nat) :
    (q.flushed threshold q.queued).length ≤ q.queued.length := by
  unfold flushed
  split
  · rw [select_kept, ← (q.stream.partition_eq q.queued false).1]
    exact length_filter_kept q.stream q.queued
  · exact Nat.le_refl _

theorem length_promoted_le (q : OutputQueue) : (q.promoted q.queued).length ≤ q.queued.length := by
  unfold promoted
  split
  next hprom =>
    unfold promotes at hprom
    obtain ⟨bodies, hbod, hsome⟩ := (Option.any_eq_true _ _).mp (Bool.and_eq_true_iff.mp hprom).2
    obtain ⟨reordered, hord⟩ := Option.isSome_iff_exists.mp hsome
    rw [show bodies.flatMap Prod.fst = q.queued from terminalBodies_queued hbod] at hord
    dsimp only
    rw [promoteControl_select hord]
    exact Nat.le_of_eq ((perm_promoteControl hord).length_eq)
  · exact Nat.le_refl _

end OutputQueue

/-- **Filters and promotions keep the streams** of the bytes they leave exactly when the flags of these bytes, in the
order in which they are left, begin the flags of the lane as it stood. -/
theorem streams_kept_iff (q : OutputQueue) :
    (∀ threshold dropped q', q.filterTerminal threshold = some (dropped, q') →
      q'.queued = q.flushed threshold q.queued ∧
        (q'.lane = q.flushed threshold q.lane ↔ q.flushed threshold q.tags <+: q.tags)) ∧
    ∀ q', q.promoteTerminalControl = some q' →
      q'.queued = q.promoted q.queued ∧ (q'.lane = q.promoted q.lane ↔ q.promoted q.tags <+: q.tags) := by
  refine ⟨fun threshold dropped q' h => ?_, fun q' h => ?_⟩
  · have hlane := filterTerminal_lane h
    refine ⟨queued_of_lane (q.length_flushed_le threshold) hlane, ?_⟩
    rw [hlane, q.queued_eq, flushed_map, zip_eq_iff, tags, flushed_map]
  · have hlane := promoteTerminalControl_lane h
    refine ⟨queued_of_lane q.length_promoted_le hlane, ?_⟩
    rw [hlane, q.queued_eq, promoted_map, zip_eq_iff, tags, promoted_map]

/-- A lane with the drained packets, before they are filtered. -/
def drainedQueue (drained : List Packet) : OutputQueue :=
  ((new .backpressure 65536).appendDrained drained).getD (.new .backpressure 65536)

def stderrPacket (text : String) : Packet := .new terminalBuffer (encodeTerminalBuffer (ascii text) true)

theorem streams_kept_iff_one_stream :
    let q := drainedQueue [terminalPacket "x\n", terminalPacket "%exit\n"]
    ∃ dropped q', q.filterTerminal 0 = some (dropped, q') ∧ q'.lane = (ascii "%exit\n").map (·, false) := by
  intro q
  obtain ⟨⟨dropped, q'⟩, hfilter, hlane⟩ : ∃ r, q.filterTerminal 0 = some r ∧
      q.flushed 0 q.lane = (ascii "%exit\n").map (·, false) :=
    ⟨_, Option.some_get (by decide +kernel : (q.filterTerminal 0).isSome) |>.symm, by decide +kernel⟩
  have hbegin : q.flushed 0 q.tags <+: q.tags := by
    refine List.isPrefixOf_iff_prefix.mp ?_
    decide +kernel
  exact ⟨dropped, q', hfilter, (((streams_kept_iff q).1 0 dropped q' hfilter).2.mpr hbegin).trans hlane⟩

/-- A dropped line of stdout, then a control line of stderr: its first bytes are left in the packet of stdout. -/
theorem flush_swaps_streams :
    let q := drainedQueue [terminalPacket "x\n", stderrPacket "%exit\n"]
    q.flushed 0 q.lane = (ascii "%exit\n").map (·, true) ∧
      (q.filterTerminal 0).map (fun r => r.2.lane) =
        some ((ascii "%e").map (·, false) ++ (ascii "xit\n").map (·, true)) := by
  exact ⟨by decide +kernel, by decide +kernel⟩

end EternalTerminal
