import EternalTerminal.Core.ObserveLines

/-!
# Core — what partitioning does to control mode

A partition decides line by line, with the stream observed so far, what a tmux control client still needs.
`fates` is the list of these decisions.

Main results: `filter_tracks_iff`, `filter_loses_control_mode`, `promotion_keeps_reading`, `promotion_swaps_modes`.
-/

namespace EternalTerminal
open List

namespace TerminalStream

/-! ### The fates of the lines -/

/-- A line, the stream before it and whether the partition keeps it. -/
structure Fate where
  stream : TerminalStream
  line : Bytes
  kept : Bool

/-- The decisions for lines; while `finishing`, lines are kept up to the first that starts with a percent
sign or is empty. -/
def fatesFrom : Bool → TerminalStream → List Bytes → List Fate
  | _, _, [] => []
  | finishing, s, line :: lines =>
    let finishing := finishing && !(line.head? == some percent || line.head? == some newline)
    ⟨s, line, finishing || s.keeps line⟩ :: fatesFrom finishing (s.observe line) lines

def fates (s : TerminalStream) (bytes : Bytes) : List Fate :=
  fatesFrom (s.control && s.midline) s (splitLines bytes)

/-- The line is dropped and was a pane line that has no newline yet. -/
def Fate.cutsPane (f : Fate) : Bool :=
  let token := lineFirstToken f.line
  !f.kept && (token == ascii "%output" || token == ascii "%extended-output") && f.line.getLast? != some newline

def keptBytes (fates : List Fate) : Bytes := (fates.filter fun f => f.kept).flatMap Fate.line

def droppedBytes (fates : List Fate) : Bytes := (fates.filter fun f => !f.kept).flatMap Fate.line

@[simp] theorem keptBytes_nil : keptBytes [] = [] := rfl

@[simp] theorem droppedBytes_nil : droppedBytes [] = [] := rfl

theorem keptBytes_cons (f : Fate) (fs : List Fate) :
    keptBytes (f :: fs) = (if f.kept then f.line else []) ++ keptBytes fs := by
  cases h : f.kept <;> simp [keptBytes, h]

theorem droppedBytes_cons (f : Fate) (fs : List Fate) :
    droppedBytes (f :: fs) = (if f.kept then [] else f.line) ++ droppedBytes fs := by
  cases h : f.kept <;> simp [droppedBytes, h]

theorem keptBytes_append (fs₁ fs₂ : List Fate) : keptBytes (fs₁ ++ fs₂) = keptBytes fs₁ ++ keptBytes fs₂ := by
  simp [keptBytes]

theorem droppedBytes_append (fs₁ fs₂ : List Fate) :
    droppedBytes (fs₁ ++ fs₂) = droppedBytes fs₁ ++ droppedBytes fs₂ := by
  simp [droppedBytes]

section
variable (finishing : Bool) (s : TerminalStream)

@[simp] theorem fatesFrom_nil : fatesFrom finishing s [] = [] := rfl

theorem fatesFrom_take (lines : List Bytes) (n : Nat) :
    fatesFrom finishing s (lines.take n) = (fatesFrom finishing s lines).take n := by
  induction lines generalizing finishing s n with
  | nil => simp
  | cons line lines ih =>
    cases n with
    | zero => rfl
    | succ n =>
      exact congrArg _ (ih _ _ n)

theorem map_line_fatesFrom (lines : List Bytes) : (fatesFrom finishing s lines).map Fate.line = lines := by
  induction lines generalizing finishing s with
  | nil => rfl
  | cons line lines ih =>
    rw [fatesFrom, map_cons, ih]

end

/-! ### Partitions -/

/-- The loop over the lines appends the kept lines, and the others where they are retained. -/
theorem foldl_partitionLine (retain : Bool) (lines : List Bytes) (p : Partition) :
    (lines.foldl (partitionLine retain) p).kept = p.kept ++ keptBytes (fatesFrom false p.state lines) ∧
      (lines.foldl (partitionLine retain) p).droppable =
        p.droppable ++ (if retain then droppedBytes (fatesFrom false p.state lines) else []) ∧
      (lines.foldl (partitionLine retain) p).skipUntilNewline =
        (p.skipUntilNewline || (fatesFrom false p.state lines).any Fate.cutsPane) := by
  induction lines generalizing p with
  | nil => simp
  | cons line lines ih =>
    obtain ⟨hkept, hdrop, hskip⟩ := ih (partitionLine retain p line)
    have hst : (partitionLine retain p line).state = p.state.observe line := by
      unfold partitionLine
      split <;> rfl
    rw [foldl_cons, hkept, hdrop, hskip, hst, fatesFrom, keptBytes_cons, droppedBytes_cons, any_cons]
    unfold partitionLine Fate.cutsPane
    cases hkp : p.state.keeps line <;> cases retain <;> simp [append_assoc, Bool.or_assoc]

theorem finishLines_eq (lines : List Bytes) (s : TerminalStream) (kept : Bytes) :
    ∃ fs, fatesFrom true s lines = fs ++ fatesFrom false (finishLines lines s kept).1 (finishLines lines s kept).2.2 ∧
      (∀ f ∈ fs, f.kept = true) ∧ (finishLines lines s kept).2.1 = kept ++ keptBytes fs := by
  induction lines generalizing s kept with
  | nil => exact ⟨[], rfl, nofun, (append_nil _).symm⟩
  | cons line lines ih =>
    rw [finishLines]
    split
    next hstop =>
      refine ⟨[], ?_, nofun, (append_nil _).symm⟩
      rw [fatesFrom, fatesFrom, hstop]
      rfl
    rename_i hgo
    obtain ⟨fs, hfat, hall, hkept⟩ := ih (s.observe line) (kept ++ line)
    refine ⟨⟨s, line, true⟩ :: fs, ?_, forall_mem_cons.mpr ⟨rfl, hall⟩, ?_⟩
    · rw [fatesFrom, Bool.eq_false_iff.mpr hgo, cons_append, ← hfat]
      rfl
    · rw [hkept, keptBytes_cons, append_assoc]
      rfl

variable {f : Fate} {fs before after : List Fate}

/-- Nothing is dropped where all is kept. -/
theorem droppedBytes_of_kept (h : ∀ f ∈ fs, f.kept = true) : droppedBytes fs = [] := by
  rw [droppedBytes, filter_eq_nil_iff.mpr (fun f hf => by simp [h f hf])]
  rfl

/-- **A partition is the list of its decisions.** -/
theorem partition_eq (s : TerminalStream) (bytes : Bytes) (retain : Bool) :
    (s.partition bytes retain).kept = keptBytes (s.fates bytes) ∧
      (s.partition bytes retain).droppable = (if retain then droppedBytes (s.fates bytes) else []) ∧
      (s.partition bytes retain).skipUntilNewline = (s.fates bytes).any Fate.cutsPane := by
  unfold partition fates
  cases hfin : s.control && s.midline with
  | false =>
    obtain ⟨hkept, hdrop, hskip⟩ := foldl_partitionLine retain (splitLines bytes) ⟨s, [], [], false⟩
    exact ⟨hkept, hdrop, hskip⟩
  | true =>
    obtain ⟨fs, hfat, hall, hfinished⟩ := finishLines_eq (splitLines bytes) s []
    simp only [if_true]
    rcases hres : finishLines (splitLines bytes) s [] with ⟨state, kept, lines⟩
    rw [hres] at hfat hfinished
    dsimp only at hfat hfinished ⊢
    obtain ⟨hkept, hdrop, hskip⟩ := foldl_partitionLine retain lines ⟨state, kept, [], false⟩
    have hqt : fs.any Fate.cutsPane = false :=
      any_eq_false.mpr fun f hf => by simp [Fate.cutsPane, hall f hf]
    rw [hfat, hkept, hdrop, hskip, hfinished, keptBytes_append, droppedBytes_append,
      droppedBytes_of_kept hall, any_append, hqt]
    exact ⟨rfl, rfl, rfl⟩

/-! ### A line glued to a plain one -/

/-- In the middle of a plain line, with a token that holds a percent sign or an escape past its first
byte: nothing can make it a control token any more. -/
structure Glued (s : TerminalStream) : Prop where
  sound : Sound s
  control : s.control = false
  token : s.tokenDone = true ∨ ∃ front byte rest, s.token = front ++ byte :: rest ∧ front ≠ [] ∧
    (byte = percent ∨ byte = EternalTerminal.escape)

/-- Past its first byte a token that is known has neither a percent sign nor an escape. -/
theorem not_mem_of_glued {token front rest : Bytes} {byte : UInt8} (htok : token = front ++ byte :: rest)
    (hfro : front ≠ []) (hbyte : byte = percent ∨ byte = EternalTerminal.escape) :
    token ∉ tmuxControlTokens ∧ token ≠ tmuxDcs := by
  obtain ⟨first, front, rfl⟩ := exists_cons_of_ne_nil hfro
  have hmem : byte ∈ token.drop 1 := by
    rw [htok]
    exact mem_append_right _ mem_cons_self
  constructor
  · intro hknown
    obtain ⟨-, -, -, hesc, hpct⟩ := tmuxControlTokens_shape token hknown
    rw [all_eq_true] at hesc hpct
    rcases hbyte with rfl | rfl
    · simpa using hpct _ hmem
    · simpa using hesc _ (mem_of_mem_drop hmem)
  · rintro rfl
    rcases hbyte with rfl | rfl
    · exact absurd hmem (by decide)
    · exact absurd hmem (by decide)

namespace Glued
variable {s : TerminalStream}
variable (h : Glued s)
include h

theorem not_arms : armsControlMode s.token = false := by
  rcases h.token with hdone | ⟨front, byte, rest, htok, hfro, hbyte⟩
  · exact h.sound.plain h.control hdone
  · exact Bool.eq_false_iff.mpr fun harms =>
      (not_mem_of_glued htok hfro hbyte).1 (mem_of_arms h.sound.noDcs harms)

theorem settle : Glued s.settle := by
  refine ⟨Sound.settle_iff.mpr h.sound, by rw [s.settle_fields.2.2.1]; exact h.control, ?_⟩
  rw [tokenDone_settle, s.settle_fields.1]
  rcases h.token with hdone | htok
  · exact .inl (by rw [hdone, Bool.true_or])
  · exact .inr htok

theorem observeByte {byte : UInt8} (hnl : byte ≠ newline) : Glued (s.observeByte byte) := by
  have hsd := h.sound.observeByte byte
  rcases observeByte_cases h.sound byte with ⟨hb, -⟩ | ⟨hterm, -⟩ | ⟨-, -, heq⟩ | ⟨-, hdone, heq⟩ |
    ⟨-, hdone, hdcs, -⟩ | ⟨-, -, -, -, -, heq⟩
  · exact absurd hb hnl
  · rw [h.control] at hterm
    cases hterm
  · rw [heq] at hsd ⊢
    refine ⟨hsd, ?_, .inl rfl⟩
    rw [h.not_arms, h.control, Bool.and_false]
    rfl
  · rw [heq] at hsd ⊢
    exact { h with sound := hsd }
  · -- no introducer holds a second escape or a percent sign
    rcases h.token with hd | ⟨front, byte', rest, htok, hfro, hbyte⟩
    · rw [hdone] at hd
      cases hd
    · have hlonger : s.token ++ [byte] = front ++ byte' :: (rest ++ [byte]) := by
        rw [htok, append_assoc]
        rfl
      exact absurd hdcs (not_mem_of_glued hlonger hfro hbyte).2
  · rw [heq] at hsd ⊢
    refine ⟨hsd, h.control, ?_⟩
    rcases h.token with hd | ⟨front, byte', rest, htok, hfro, hbyte⟩
    · exact .inl hd
    · refine .inr ⟨front, byte', rest ++ [byte], ?_, hfro, hbyte⟩
      rw [htok, append_assoc]
      rfl

theorem feed {bytes : Bytes} (hline : newline ∉ bytes) : Glued (s.feed bytes) := by
  induction bytes generalizing s with
  | nil => exact h
  | cons byte bytes ih =>
    rw [mem_cons, not_or] at hline
    exact ih (h.observeByte fun hb => hline.1 hb.symm).settle hline.2

theorem block : s.block = false := h.sound.not_block h.control

theorem observeByte_newline : s.observeByte newline = TerminalStream.lineStart false false := by
  rw [TerminalStream.observeByte_newline h.sound, h.not_arms, h.control, blockAfter_of_not_arms h.not_arms, h.block]
  rfl

end Glued
variable {s t : TerminalStream} {lines : List Bytes} {finishing : Bool} {line : Bytes}

/-- What is stripped in front of a token is an introducer. -/
theorem head_stripDcs (token : Bytes) :
    token.head? = (stripDcs token).head? ∨ token.head? = some EternalTerminal.escape := by
  by_cases hdcs : tmuxDcs <+: token
  · obtain ⟨rest, rfl⟩ := hdcs
    exact .inr rfl
  · rw [stripDcs_of_not hdcs]
    exact .inl rfl

/-- What a plain stream keeps starts with a control token, so with a percent sign or an escape. -/
theorem head_of_keeps_plain (h : (lineStart false false).keeps line = true) :
    ∃ byte rest, line = byte :: rest ∧ (byte = percent ∨ byte = EternalTerminal.escape) := by
  have hctl : isTmuxControlToken (lineFirstToken line) = true := by
    simp only [keeps, lineStart, Bool.false_and, Bool.or_false, Bool.false_or, Bool.and_eq_true] at h
    exact h.1
  have hpct := (tmuxControlTokens_shape _ (mem_of_isTmuxControlToken hctl)).2.1
  have htok : (line.takeWhile fun b => !isAsciiWhitespace b).head? = some percent ∨
      (line.takeWhile fun b => !isAsciiWhitespace b).head? = some EternalTerminal.escape := by
    rcases head_stripDcs (line.takeWhile fun b => !isAsciiWhitespace b) with h₁ | h₁
    · rcases head_stripDcs (stripDcs (line.takeWhile fun b => !isAsciiWhitespace b)) with h₂ | h₂
      · exact .inl ((h₁.trans h₂).trans hpct)
      · exact .inr (h₁.trans h₂)
    · exact .inr h₁
  cases line with
  | nil => rcases htok with h | h <;> cases h
  | cons byte rest =>
    refine ⟨byte, rest, rfl, ?_⟩
    rw [takeWhile_cons] at htok
    split at htok
    · rcases htok with h | h
      · exact .inl (Option.some.inj h)
      · exact .inr (Option.some.inj h)
    · rcases htok with h | h <;> cases h

/-- **A kept line that is glued to a plain one** is read as a part of it. -/
theorem feed_glued (hs : Sound s) (hctl : s.control = false) (hmid : s.midline = true)
    (hkp : (lineStart false false).keeps line = true) :
    (IsLine line → s.feed line = lineStart false false) ∧ (newline ∉ line → (s.feed line).modes = (false, false)) := by
  obtain ⟨byte, rest, rfl, hbyte⟩ := head_of_keeps_plain hkp
  have hnl : byte ≠ newline := by rcases hbyte with rfl | rfl <;> decide
  -- its first byte is past the first of the token
  have hglued : Glued (s.observeByte byte).settle := by
    have hsd := Sound.settle_iff.mpr (hs.observeByte byte)
    rcases observeByte_cases hs byte with ⟨hb, -⟩ | ⟨hterm, -⟩ | ⟨-, hbl, -⟩ | ⟨-, hdone, heq⟩ |
      ⟨-, -, hdcs, -⟩ | ⟨-, -, hdone, -, -, heq⟩
    · exact absurd hb hnl
    · rw [hctl] at hterm
      cases hterm
    · rcases hbyte with rfl | rfl <;> exact absurd hbl (by decide)
    · refine ⟨hsd, by rw [(settle_fields _).2.2.1, heq]; exact hctl, .inl ?_⟩
      rw [tokenDone_settle, heq]
      rcases hdone with hdone | hlen
      · exact Bool.or_eq_true_iff.mpr (.inl hdone)
      · exact Bool.or_eq_true_iff.mpr (.inr (decide_eq_true hlen))
    · have hlast := congrArg List.getLast? hdcs
      rw [List.getLast?_concat] at hlast
      rcases hbyte with rfl | rfl <;> exact absurd hlast (by decide)
    · refine Glued.settle ⟨Sound.settle_iff.mp hsd, by rw [heq]; exact hctl, .inr ⟨s.token, byte, [], ?_, ?_, hbyte⟩⟩
      · rw [heq]
      · rcases hs.begun hmid with hne | hd
        · exact hne
        · rw [hdone] at hd
          cases hd
  rw [feed_cons]
  constructor
  · rintro ⟨body, hbody, heq⟩
    cases body with
    | nil => exact absurd (List.cons.inj heq).1 hnl
    | cons first body =>
      rw [cons_append] at heq
      obtain ⟨rfl, rfl⟩ := List.cons.inj heq
      have hend := hglued.feed fun hmem => hbody (mem_cons_of_mem _ hmem)
      rw [feed_append, feed_cons, feed_nil, hend.observeByte_newline, settle_lineStart]
  · intro hline
    have hend := hglued.feed fun hmem => hline (mem_cons_of_mem _ hmem)
    rw [modes, hend.control, hend.block]

/-! ### Filters follow the mode -/

/-- Every line that is dropped leaves the mode as it is. -/
def DropsQuietly (fs : List Fate) : Prop :=
  ∀ f ∈ fs, f.kept = false → (f.stream.observe f.line).modes = f.stream.modes

instance (fs : List Fate) : Decidable (DropsQuietly fs) :=
  inferInstanceAs (Decidable (∀ f ∈ fs, f.kept = false → (f.stream.observe f.line).modes = f.stream.modes))

/-- The first line that is kept leaves the mode as it is. -/
def FirstKeptQuietly (fs : List Fate) : Prop :=
  ∀ f, fs.find? (fun f => f.kept) = some f → (f.stream.observe f.line).modes = f.stream.modes

/-- From the stream `t`, what is kept of the lines leads to the mode the lines lead to from `s`, after
every one of them. -/
def TracksFrom (t : TerminalStream) (finishing : Bool) (s : TerminalStream) (lines : List Bytes) : Prop :=
  ∀ n, (t.feed (keptBytes ((fatesFrom finishing s lines).take n))).modes =
    (s.settle.feed (lines.take n).flatten).modes

theorem tracksFrom_nil :
    TracksFrom t finishing s [] ↔ t.modes = s.modes := by
  constructor
  · intro h
    simpa using h 0
  · intro h n
    simpa using h

/-- One line: what is kept of it must lead to the mode the line leads to, and go on from there. -/
theorem tracksFrom_cons (hs : Sound s) {t' : TerminalStream} {finishing' : Bool} {mode : Bool × Bool} {P : Prop}
    (hfin : (finishing && !(line.head? == some percent || line.head? == some newline)) = finishing')
    (hkept : t.feed (if finishing' || s.keeps line then line else []) = t') (hmode : t'.modes = mode)
    (hmod : t.modes = s.modes)
    (hnext : (s.observe line).modes = mode → (TracksFrom t' finishing' (s.observe line) lines ↔ P)) :
    TracksFrom t finishing s (line :: lines) ↔ (s.observe line).modes = mode ∧ P := by
  subst hfin hkept hmode
  have hstep : ∀ n, (t.feed (keptBytes ((fatesFrom finishing s (line :: lines)).take (n + 1)))).modes =
        (s.settle.feed ((line :: lines).take (n + 1)).flatten).modes ↔
      ((t.feed (if (finishing && !(line.head? == some percent || line.head? == some newline)) ||
          s.keeps line then line else [])).feed (keptBytes ((fatesFrom
            (finishing && !(line.head? == some percent || line.head? == some newline))
            (s.observe line) lines).take n))).modes =
        ((s.observe line).settle.feed (lines.take n).flatten).modes := by
    intro n
    rw [fatesFrom, take_succ_cons, take_succ_cons, keptBytes_cons, flatten_cons, feed_append,
      feed_append, ← settle_observe hs]
  constructor
  · intro h
    have haft := (hstep 0).mp (h 1)
    rw [take_zero, take_zero, keptBytes_nil, feed_nil, flatten_nil, feed_nil, modes_settle] at haft
    exact ⟨haft.symm, (hnext haft.symm).mp fun n => (hstep n).mp (h (n + 1))⟩
  · rintro ⟨hleft, hp⟩ n
    cases n with
    | zero => simpa using hmod
    | succ n => exact (hstep n).mpr ((hnext hleft).mpr hp n)

theorem dropsQuietly_cons :
    DropsQuietly (f :: fs) ↔ (f.kept = false → (f.stream.observe f.line).modes = f.stream.modes) ∧ DropsQuietly fs :=
  forall_mem_cons

/-- With a first line in front: it leaves the mode as it is, whether it is the first that is kept or is dropped. -/
theorem quietly_cons :
    DropsQuietly (f :: fs) ∧ FirstKeptQuietly (f :: fs) ↔
      (f.stream.observe f.line).modes = f.stream.modes ∧ DropsQuietly fs ∧ (f.kept = false → FirstKeptQuietly fs) := by
  rw [dropsQuietly_cons]
  unfold FirstKeptQuietly
  cases h : f.kept with
  | true => simp [h, and_comm]
  | false => simp [h, and_assoc]

/-- Two streams at the start of a line with the same mode are the same. -/
theorem observe_line_of_modes (hs : Sound s) (hline : IsLine line)
    {control block : Bool} (h : (s.observe line).modes = (control, block)) :
    s.observe line = lineStart control block := by
  obtain ⟨hctl, hblk⟩ := Prod.mk.inj h
  rw [observe_line hs hline, hctl, hblk]

/-- **In step**: from the stream itself, what is kept follows the mode exactly when every dropped line
leaves it as it is.  A line that has already begun must not be dropped. -/
theorem tracksFrom_iff (hs : Sound s) (hcut : WellCut lines)
    (hbeg : s.midline = true → ∀ f ∈ (fatesFrom finishing s lines).head?, f.kept = true) :
    TracksFrom s.settle finishing s lines ↔ DropsQuietly (fatesFrom finishing s lines) := by
  induction lines generalizing finishing s with
  | nil =>
    rw [tracksFrom_nil, modes_settle]
    exact ⟨fun _ => nofun, fun _ => rfl⟩
  | cons line lines ih =>
    generalize hfin : (finishing && !(line.head? == some percent || line.head? == some newline)) = finishing'
    have hnext : (s.observe line).midline = true → ∀ f ∈ (fatesFrom finishing' (s.observe line) lines).head?,
        f.kept = true := by
      intro hmid
      rcases hcut.cons with ⟨hline, -⟩ | ⟨-, rfl⟩
      · rw [observe_line hs hline] at hmid
        cases hmid
      · exact nofun
    have hnextIff := ih (hs.observe line) hcut.tail hnext
    cases hkept : finishing' || s.keeps line with
    | true =>
      rw [tracksFrom_cons hs hfin (by rw [hkept, if_pos rfl, ← settle_observe hs]) (modes_settle _) s.modes_settle
        fun _ => hnextIff, fatesFrom, dropsQuietly_cons, hfin, hkept]
      exact ⟨fun h => ⟨nofun, h.2⟩, fun h => ⟨rfl, h.2⟩⟩
    | false =>
      -- a dropped line is at its start, and leads back there
      have hmid : s.midline = false := by
        refine Bool.eq_false_iff.mpr fun hmid => ?_
        have hfst := hbeg hmid ⟨s, line, finishing' || s.keeps line⟩ (by rw [fatesFrom, hfin]; rfl)
        rw [hkept] at hfst
        cases hfst
      have hsame : (s.observe line).modes = s.modes →
          (TracksFrom s.settle finishing' (s.observe line) lines ↔
            DropsQuietly (fatesFrom finishing' (s.observe line) lines)) := by
        intro hmod
        rcases hcut.cons with ⟨hline, -⟩ | ⟨-, rfl⟩
        · have hback : s.observe line = s := by
            rw [observe_line_of_modes hs hline hmod]
            exact (hs.eq_lineStart hmid).symm
          rw [hback] at hnextIff ⊢
          exact hnextIff
        · rw [tracksFrom_nil, modes_settle, hmod]
          exact ⟨fun _ => nofun, fun _ => rfl⟩
      rw [tracksFrom_cons hs hfin (by rw [hkept]; rfl) s.modes_settle s.modes_settle hsame, fatesFrom,
        dropsQuietly_cons, hfin, hkept]
      exact and_congr_left fun _ => ⟨fun h _ => h, fun h => h rfl⟩

/-- **Glued**: from the middle of a plain line whose rest was dropped, the first line that is kept is read
as a part of that line, so it must not change the mode either. -/
theorem tracksFrom_glued_iff (ht : Sound t) (hctl : t.control = false)
    (hmid : t.midline = true) (hcut : WellCut lines) :
    TracksFrom t false (lineStart false false) lines ↔
      DropsQuietly (fatesFrom false (lineStart false false) lines) ∧
        FirstKeptQuietly (fatesFrom false (lineStart false false) lines) := by
  have hpl := ht.modes_plain hctl
  have hstart : Sound (lineStart false false) := .lineStart (fun h => h)
  induction lines with
  | nil =>
    rw [tracksFrom_nil, hpl]
    exact ⟨fun _ => ⟨nofun, nofun⟩, fun _ => rfl⟩
  | cons line lines ih =>
    rw [fatesFrom, quietly_cons]
    cases hkept : (lineStart false false).keeps line with
    | true =>
      obtain ⟨hwh, hpart⟩ := feed_glued ht hctl hmid hkept
      rcases hcut.cons with ⟨hline, -⟩ | ⟨hrem, rfl⟩
      · refine tracksFrom_cons hstart (Bool.false_and _) (by rw [hkept]; exact hwh hline) rfl hpl fun hmod => ?_
        rw [observe_line_of_modes hstart hline hmod]
        exact (tracksFrom_iff hstart hcut.tail nofun).trans ⟨fun h => ⟨h, nofun⟩, fun h => h.1⟩
      · have hfed : t.feed (if false || (lineStart false false).keeps line then line else []) = t.feed line := by
          rw [hkept]
          rfl
        refine tracksFrom_cons hstart (Bool.false_and _) hfed (hpart hrem.2) hpl fun hmod => ?_
        rw [tracksFrom_nil, hpart hrem.2, hmod]
        exact ⟨fun _ => ⟨nofun, nofun⟩, fun _ => rfl⟩
    | false =>
      have hfed : t.feed (if false || (lineStart false false).keeps line then line else []) = t := by
        rw [hkept]
        rfl
      refine tracksFrom_cons hstart (Bool.false_and _) hfed hpl hpl fun hmod => ?_
      rcases hcut.cons with ⟨hline, -⟩ | ⟨-, rfl⟩
      · rw [observe_line_of_modes hstart hline hmod]
        exact (ih hcut.tail).trans ⟨fun h => ⟨h.1, fun _ => h.2⟩, fun h => ⟨h.1, h.2 rfl⟩⟩
      · rw [tracksFrom_nil, hpl, hmod]
        exact ⟨fun _ => ⟨nofun, fun _ => nofun⟩, fun _ => rfl⟩

/-- The first `n` lines. -/
def firstLines (n : Nat) (bytes : Bytes) : Bytes := ((splitLines bytes).take n).flatten

/-- No line that the filter drops changes the mode; and where it drops the rest of a plain line that has
begun, neither does the first line it keeps. -/
def FollowsMode (s : TerminalStream) (bytes : Bytes) : Prop :=
  DropsQuietly (s.fates bytes) ∧
    (s.midline = true → s.control = false → (∀ f ∈ (s.fates bytes).head?, f.kept = false) →
      FirstKeptQuietly (s.fates bytes))

theorem fates_firstLines (s : TerminalStream) (n : Nat) (bytes : Bytes) :
    s.fates (firstLines n bytes) = (s.fates bytes).take n := by
  rw [fates, firstLines, ((wellCut_splitLines bytes).take n).splitLines_flatten, fatesFrom_take]
  rfl

theorem modes_observe (hs : Sound s) (bytes : Bytes) :
    (s.observe bytes).modes = (s.settle.feed bytes).modes := by
  rw [← settle_observe hs, modes_settle]

/-- A control-mode line that has begun is kept. -/
theorem keeps_begun (hctl : s.control = true) (hmid : s.midline = true) (line : Bytes) :
    s.keeps line = true := by
  simp [keeps, hctl, hmid]

theorem kept_head (hf : f ∈ (fatesFrom finishing s (line :: lines)).head?) :
    f.kept = (finishing && !(line.head? == some percent || line.head? == some newline) || s.keeps line) := by
  obtain rfl := Option.some.inj hf
  rfl

theorem head_begun (hctl : s.control = true) (hmid : s.midline = true)
    (hf : f ∈ (fatesFrom finishing s lines).head?) : f.kept = true := by
  cases lines with
  | nil => cases hf
  | cons line lines => rw [kept_head hf, keeps_begun hctl hmid, Bool.or_true]

/-- Where the rest of a plain line that has begun is dropped, the lines after it are glued to it. -/
theorem tracksFrom_dropped_iff (hs : Sound s) (hctl : s.control = false)
    (hmid : s.midline = true) (hcut : WellCut (line :: lines))
    (hdrop : s.keeps line = false) :
    TracksFrom s.settle false s (line :: lines) ↔
      DropsQuietly (fatesFrom false s (line :: lines)) ∧ FirstKeptQuietly (fatesFrom false s (line :: lines)) := by
  have hpl := hs.modes_plain hctl
  rw [fatesFrom, quietly_cons]
  simp only [Bool.false_and, Bool.false_or, hdrop]
  have hfed : s.settle.feed (if false || s.keeps line then line else []) = s.settle := by
    rw [hdrop]
    rfl
  refine tracksFrom_cons hs (Bool.false_and _) hfed s.modes_settle s.modes_settle fun hmod => ?_
  rw [hpl] at hmod
  rcases hcut.cons with ⟨hline, hrest⟩ | ⟨-, rfl⟩
  · rw [observe_line_of_modes hs hline hmod, tracksFrom_glued_iff (Sound.settle_iff.mpr hs)
      (by rw [s.settle_fields.2.2.1]; exact hctl) (by rw [s.settle_fields.2.1]; exact hmid) hrest]
    exact ⟨fun h => ⟨h.1, fun _ => h.2⟩, fun h => ⟨h.1, h.2 trivial⟩⟩
  · rw [tracksFrom_nil, modes_settle, hpl, hmod]
    exact ⟨fun _ => ⟨nofun, fun _ => nofun⟩, fun _ => rfl⟩

theorem tracksFrom_iff_followsMode (hs : Sound s) (bytes : Bytes) :
    TracksFrom s.settle (s.control && s.midline) s (splitLines bytes) ↔ s.FollowsMode bytes := by
  have hcut := wellCut_splitLines bytes
  unfold FollowsMode fates
  cases hmid : s.midline with
  | false =>
    rw [tracksFrom_iff hs hcut fun h => nomatch (hmid.symm.trans h)]
    exact ⟨fun h => ⟨h, nofun⟩, fun h => h.1⟩
  | true =>
    cases hctl : s.control with
    | true =>
      rw [Bool.and_self, tracksFrom_iff hs hcut fun _ f => head_begun hctl hmid]
      exact ⟨fun h => ⟨h, nofun⟩, fun h => h.1⟩
    | false =>
      rw [Bool.false_and]
      cases hlin : splitLines bytes with
      | nil =>
        rw [tracksFrom_nil, modes_settle]
        exact ⟨fun _ => ⟨nofun, fun _ _ _ => nofun⟩, fun _ => rfl⟩
      | cons line lines =>
        rw [hlin] at hcut
        cases hkept : s.keeps line with
        | true =>
          have hbeg : ∀ f ∈ (fatesFrom false s (line :: lines)).head?, f.kept = true :=
            fun f hf => (kept_head hf).trans hkept
          rw [tracksFrom_iff hs hcut fun _ => hbeg]
          refine ⟨fun h => ⟨h, fun _ _ hdrop => ?_⟩, fun h => h.1⟩
          have hfalse := hdrop ⟨s, line, s.keeps line⟩ rfl
          rw [show s.keeps line = false from hfalse] at hkept
          cases hkept
        | false =>
          have hdrop : ∀ f ∈ (fatesFrom false s (line :: lines)).head?, f.kept = false :=
            fun f hf => (kept_head hf).trans hkept
          rw [tracksFrom_dropped_iff hs hctl hmid hcut hkept]
          exact ⟨fun h => ⟨h.1, fun _ _ _ => h.2⟩, fun h => ⟨h.1, h.2 rfl rfl hdrop⟩⟩

/-- **What a filter keeps follows the mode** of all the output, line by line, exactly when the filter
drops no line that changes it and glues no line that does to a dropped one.  Then all that is kept leads
to the mode all of the output leads to. -/
theorem filter_tracks_iff {s : TerminalStream} (hs : Observed s) (bytes : Bytes) :
    ((∀ n, (s.observe (s.filter (firstLines n bytes)).kept).modes = (s.observe (firstLines n bytes)).modes) ↔
        s.FollowsMode bytes) ∧
      (s.FollowsMode bytes → (s.observe (s.filter bytes).kept).modes = (s.observe bytes).modes) := by
  have hkept : ∀ n, (s.observe (s.filter (firstLines n bytes)).kept).modes =
      (s.settle.feed (keptBytes ((s.fates bytes).take n))).modes := by
    intro n
    rw [filter, (s.partition_eq _ false).1, fates_firstLines, modes_observe hs.sound]
  have hiff : (∀ n, (s.observe (s.filter (firstLines n bytes)).kept).modes =
      (s.observe (firstLines n bytes)).modes) ↔ s.FollowsMode bytes := by
    rw [← tracksFrom_iff_followsMode hs.sound]
    refine forall_congr' fun n => ?_
    rw [hkept, modes_observe hs.sound]
    rfl
  refine ⟨hiff, fun hfollows => ?_⟩
  have hall := hiff.mpr hfollows (splitLines bytes).length
  rwa [firstLines, take_length, splitLines_flatten] at hall

/-- A session in control mode that drops two pane lines, keeps a notification and follows the mode. -/
theorem filter_tracks_control : let s := default.observe (ascii "%begin 1\n%end 1\n")
    let bytes := ascii "%output %1 a\n%window-add @1\n%output %1 b"
    (s.filter bytes).kept = ascii "%window-add @1\n" ∧
      (s.observe (s.filter bytes).kept).modes = (s.observe bytes).modes :=
  ⟨by decide +kernel, (filter_tracks_iff (.observe _ .default) _).2
    ⟨by decide +kernel, fun hmid => absurd hmid (by decide +kernel)⟩⟩

/-- **A dropped pane line can be what enters control mode**: afterwards the stream does not know of it. -/
theorem filter_loses_control_mode : ∃ s bytes, Observed s ∧
    (s.observe (s.filter bytes).kept).modes ≠ (s.observe bytes).modes :=
  ⟨default, ascii "%output %0 z", .default, by decide +kernel⟩

/-! ### Promotions -/

/-- Every line with the control mode it is read in. -/
def lineStarts : TerminalStream → List Bytes → List (Bytes × Bool)
  | _, [] => []
  | s, line :: lines => (line, s.control) :: lineStarts (s.observe line) lines

theorem lineStarts_append (s : TerminalStream) (lines₁ lines₂ : List Bytes) :
    s.lineStarts (lines₁ ++ lines₂) = s.lineStarts lines₁ ++ (lines₁.foldl observe s).lineStarts lines₂ := by
  induction lines₁ generalizing s with
  | nil => rfl
  | cons line lines₁ ih =>
    rw [cons_append, lineStarts, lineStarts, ih, foldl_cons, cons_append]

/-- Every line that a kept one overtakes is read in the mode the last kept line leaves, and leaves it as
it is. -/
def PassesQuietly (fs : List Fate) : Prop :=
  match fs.reverse.dropWhile fun f => !f.kept with
  | [] => True
  | last :: before => ∀ f ∈ before, f.kept = false →
      f.stream.modes = (last.stream.observe last.line).modes ∧
        (f.stream.observe f.line).modes = (last.stream.observe last.line).modes

instance (fs : List Fate) : Decidable (PassesQuietly fs) := by
  unfold PassesQuietly
  split <;> infer_instance

/-- Lines that are dropped at the start of a line, and lead back there. -/
def Loops (fs : List Fate) : Prop :=
  ∀ f ∈ fs, f.kept = false → f.stream.observe f.line = f.stream

/-- Without lines that lead back to where they start, the others are read as before. -/
theorem lineStarts_kept (h : Loops (fatesFrom finishing s lines)) :
    (s.lineStarts lines).Perm (s.lineStarts (((fatesFrom finishing s lines).filter fun f => f.kept).map Fate.line) ++
        ((fatesFrom finishing s lines).filter fun f => !f.kept).map fun f => (f.line, f.stream.control)) ∧
      (((fatesFrom finishing s lines).filter fun f => f.kept).map Fate.line).foldl observe s =
        lines.foldl observe s := by
  induction lines generalizing finishing s with
  | nil => exact ⟨.refl _, rfl⟩
  | cons line lines ih =>
    rw [fatesFrom] at h ⊢
    generalize (finishing && !(line.head? == some percent || line.head? == some newline)) = finishing' at h ⊢
    obtain ⟨hfst, hrest⟩ := forall_mem_cons.mp h
    obtain ⟨hperm, hfold⟩ := ih hrest
    cases hkept : finishing' || s.keeps line with
    | true =>
      exact ⟨hperm.cons _, hfold⟩
    | false =>
      have hloop : s.observe line = s := hfst hkept
      rw [filter_cons_of_neg (by exact Bool.false_ne_true), filter_cons_of_pos rfl, map_cons, foldl_cons, lineStarts]
      rw [hloop] at hperm hfold ⊢
      exact ⟨(hperm.cons _).trans perm_middle.symm, hfold⟩

/-- Lines that lead back to the start of a line are all read there. -/
theorem lineStarts_loops (h : ∀ line ∈ lines, s.observe line = s) :
    s.lineStarts lines = lines.map (fun line => (line, s.control)) ∧ lines.foldl observe s = s := by
  induction lines with
  | nil => exact ⟨rfl, rfl⟩
  | cons line lines ih =>
    obtain ⟨hfst, hrest⟩ := forall_mem_cons.mp h
    rw [lineStarts, foldl_cons, hfst, map_cons, (ih hrest).1, (ih hrest).2]
    exact ⟨rfl, rfl⟩

/-- The complete part of the output is made of whole lines. -/
theorem completeLines_take (hcut : WellCut lines) (observed : TerminalStream) (offset complete : Nat) :
    ∃ k, (completeLines lines observed offset complete = complete ∧ k = 0 ∨
        completeLines lines observed offset complete = offset + (lines.take k).flatten.length) ∧
      ∀ line ∈ lines.take k, IsLine line := by
  induction lines generalizing observed offset complete with
  | nil => exact ⟨0, .inl ⟨rfl, rfl⟩, by simp⟩
  | cons line lines ih =>
    rw [completeLines]
    rcases hcut.cons with ⟨hline, hrest⟩ | ⟨hrem, rfl⟩
    · obtain ⟨k, heq, hall⟩ := ih hrest (observed.observe line) (offset + line.length)
        (if line.getLast? == some newline && !(observed.observe line).block then offset + line.length else complete)
      rcases heq with ⟨heq, rfl⟩ | heq
      · rw [heq]
        split
        · refine ⟨1, .inr (by simp), fun l hl => ?_⟩
          rw [take_succ_cons, take_zero, mem_singleton] at hl
          exact hl ▸ hline
        · exact ⟨0, .inl ⟨rfl, rfl⟩, by simp⟩
      · refine ⟨k + 1, .inr ?_, forall_mem_cons.mpr ⟨hline, hall⟩⟩
        rw [heq, take_succ_cons, flatten_cons, length_append, Nat.add_assoc]
    · refine ⟨0, .inl ⟨?_, rfl⟩, by simp⟩
      rw [completeLines, if_neg (by simp [hrem.getLast?])]

/-- The part of the output that a promotion reorders. -/
def completePart (s : TerminalStream) (bytes : Bytes) : Bytes :=
  bytes.take (completeLines (splitLines bytes) s 0 0)

theorem completePart_eq (s : TerminalStream) (bytes : Bytes) :
    ∃ k, s.completePart bytes = ((splitLines bytes).take k).flatten ∧
      bytes.drop (completeLines (splitLines bytes) s 0 0) = ((splitLines bytes).drop k).flatten ∧
      ∀ line ∈ (splitLines bytes).take k, IsLine line := by
  obtain ⟨k, hcomp, hall⟩ := completeLines_take (wellCut_splitLines bytes) s 0 0
  have hlen : completeLines (splitLines bytes) s 0 0 = ((splitLines bytes).take k).flatten.length := by
    rcases hcomp with ⟨hzero, rfl⟩ | heq
    · rw [hzero]
      rfl
    · rw [heq, Nat.zero_add]
  have hspl : ((splitLines bytes).take k).flatten ++ ((splitLines bytes).drop k).flatten = bytes := by
    rw [← flatten_append, take_append_drop, splitLines_flatten]
  refine ⟨k, ?_, ?_, hall⟩
  · have htake := congrArg (List.take ((splitLines bytes).take k).flatten.length) hspl
    rw [take_left] at htake
    rw [completePart, hlen]
    exact htake.symm
  · have hdrop := congrArg (List.drop ((splitLines bytes).take k).flatten.length) hspl
    rw [drop_left] at hdrop
    rw [hlen]
    exact hdrop.symm

/-- What is promoted: the kept lines, the others, and the incomplete rest. -/
theorem promoteControl_eq {bytes promoted : Bytes} (h : s.promoteControl bytes = some promoted) :
    keptBytes (s.fates (s.completePart bytes)) ≠ [] ∧
      promoted = keptBytes (s.fates (s.completePart bytes)) ++ droppedBytes (s.fates (s.completePart bytes)) ++
        bytes.drop (completeLines (splitLines bytes) s 0 0) := by
  unfold promoteControl at h
  split at h
  · cases h
  dsimp only at h
  obtain ⟨hkept, hdrop, -⟩ := s.partition_eq (s.completePart bytes) true
  unfold completePart at hkept hdrop ⊢
  rw [hkept, hdrop, if_pos rfl] at h
  split at h
  · cases h
  next hne =>
    rw [Bool.or_eq_true, not_or, List.isEmpty_iff] at hne
    exact ⟨hne.1, (Option.some.inj h).symm⟩

/-- The stream before a line is what the lines before it lead to. -/
theorem stream_of_fates (h : fatesFrom finishing s lines = before ++ f :: after) :
    f.stream = (before.map Fate.line).foldl observe s := by
  induction before generalizing finishing s lines with
  | nil =>
    cases lines with
    | nil => cases h
    | cons line lines =>
      rw [← (List.cons.inj h).1]
      rfl
  | cons first before ih =>
    cases lines with
    | nil => cases h
    | cons line lines =>
      obtain ⟨rfl, hrest⟩ := List.cons.inj h
      exact ih hrest

/-- A dropped line is at the start of a line, unless it is the first and had already begun. -/
theorem start_of_dropped (hs : Sound s) (hlin : ∀ line ∈ lines, IsLine line)
    (hbeg : s.midline = true → ∀ f ∈ (fatesFrom finishing s lines).head?, f.kept = true)
    (hf : f ∈ fatesFrom finishing s lines) (hdrop : f.kept = false) :
    Sound f.stream ∧ f.stream = lineStart f.stream.control f.stream.block := by
  induction lines generalizing finishing s with
  | nil => cases hf
  | cons line lines ih =>
    rcases mem_cons.mp hf with rfl | hf
    · refine ⟨hs, hs.eq_lineStart (Bool.eq_false_iff.mpr fun hmid => ?_)⟩
      rw [hbeg hmid _ rfl] at hdrop
      cases hdrop
    · refine ih (hs.observe line) (fun l hl => hlin l (mem_cons_of_mem _ hl)) (fun hmid => ?_) hf
      rw [observe_line hs (hlin line mem_cons_self)] at hmid
      cases hmid

theorem sound_of_fates (hs : Sound s) (hf : f ∈ fatesFrom finishing s lines) : Sound f.stream := by
  induction lines generalizing finishing s with
  | nil => cases hf
  | cons line lines ih =>
    rcases mem_cons.mp hf with rfl | hf
    · exact hs
    · exact ih (hs.observe line) hf

/-- The decisions up to the last line that is kept, and the dropped lines after it. -/
theorem split_last_kept (h : keptBytes fs ≠ []) :
    ∃ before last after, fs = before ++ last :: after ∧ last.kept = true ∧ (∀ f ∈ after, f.kept = false) ∧
      fs.reverse.dropWhile (fun f => !f.kept) = last :: before.reverse := by
  have hspl := takeWhile_append_dropWhile (p := fun f : Fate => !f.kept) (l := fs.reverse)
  cases hlast : fs.reverse.dropWhile fun f => !f.kept with
  | nil =>
    rw [dropWhile_eq_nil_iff] at hlast
    refine absurd ?_ h
    rw [keptBytes, filter_eq_nil_iff.mpr fun f hf => ?_]
    · rfl
    · simpa using hlast f (mem_reverse.mpr hf)
  | cons last before =>
    have hkept : last.kept = true := by
      have hhead := List.head?_dropWhile_not (fun f : Fate => !f.kept) fs.reverse
      rw [hlast] at hhead
      simpa using hhead
    rw [hlast] at hspl
    refine ⟨before.reverse, last, (fs.reverse.takeWhile fun f => !f.kept).reverse, ?_, hkept, fun f hf => ?_, ?_⟩
    · have hrev := congrArg List.reverse hspl
      rw [reverse_reverse, reverse_append, reverse_cons, append_assoc] at hrev
      exact hrev.symm
    · simpa using mem_takeWhile_imp (mem_reverse.mp hf)
    · rw [reverse_reverse]

/-- The kept lines first, then the others: nothing changes when the lines that are overtaken lead back to
where the last kept line ends. -/
theorem lineStarts_reordered {whole : List Bytes}
    {last : Fate} (hfat : fatesFrom finishing s whole = before ++ last :: after) (hkept : last.kept = true)
    (haft : ∀ f ∈ after, f.kept = false)
    (hloops : ∀ f ∈ before, f.kept = false → f.stream = last.stream.observe last.line ∧
      (last.stream.observe last.line).observe f.line = last.stream.observe last.line) (rest : List Bytes) :
    (s.lineStarts (((fatesFrom finishing s whole).filter fun f => f.kept).map Fate.line ++
        ((fatesFrom finishing s whole).filter fun f => !f.kept).map Fate.line ++ rest)).Perm
      (s.lineStarts (whole ++ rest)) ∧
    (((fatesFrom finishing s whole).filter fun f => f.kept).map Fate.line ++
        ((fatesFrom finishing s whole).filter fun f => !f.kept).map Fate.line ++ rest).foldl observe s =
      (whole ++ rest).foldl observe s := by
  have hlast := stream_of_fates hfat
  generalize hτ : last.stream.observe last.line = τ at hloops
  -- the lines before the last kept one are decided as they would be without the rest
  have hfro : fatesFrom finishing s (before.map Fate.line) = before := by
    have hwh : whole = (before ++ last :: after).map Fate.line := by
      rw [← hfat, map_line_fatesFrom]
    have htake := fatesFrom_take finishing s whole before.length
    rw [hfat, take_left] at htake
    rw [hwh, map_append, take_left' (by simp)] at htake
    exact htake
  have hbef : Loops (fatesFrom finishing s (before.map Fate.line)) := by
    rw [hfro]
    intro f hf hdrop
    obtain ⟨hstr, hback⟩ := hloops f hf hdrop
    rw [hstr, hback]
  obtain ⟨hperm, hfold⟩ := lineStarts_kept hbef
  rw [hfro] at hperm hfold
  have hwh : whole = before.map Fate.line ++ (last.line :: after.map Fate.line) := by
    rw [← map_line_fatesFrom finishing s whole, hfat, map_append, map_cons]
  have hkeptLines : ((fatesFrom finishing s whole).filter fun f => f.kept).map Fate.line =
      (before.filter fun f => f.kept).map Fate.line ++ [last.line] := by
    have hnone : (after.filter fun f => f.kept) = [] :=
      filter_eq_nil_iff.mpr fun f hf => by simp [haft f hf]
    rw [hfat, filter_append, filter_cons_of_pos hkept, hnone, map_append]
    rfl
  have hdroppedLines : ((fatesFrom finishing s whole).filter fun f => !f.kept).map Fate.line =
      (before.filter fun f => !f.kept).map Fate.line ++ after.map Fate.line := by
    have hall : (after.filter fun f => !f.kept) = after :=
      filter_eq_self.mpr fun f hf => by simp [haft f hf]
    rw [hfat, filter_append, filter_cons_of_neg (by simp [hkept]), hall, map_append]
  -- all the overtaken lines are read where the last kept line ends
  have hdrop : ∀ f ∈ before.filter fun f => !f.kept, f.stream = τ ∧ τ.observe f.line = τ := by
    intro f hf
    obtain ⟨hmem, hf⟩ := mem_filter.mp hf
    exact hloops f hmem (by simpa using hf)
  have hback : ∀ line ∈ (before.filter fun f => !f.kept).map Fate.line, τ.observe line = τ := by
    intro line hline
    obtain ⟨f, hf, rfl⟩ := mem_map.mp hline
    exact (hdrop f hf).2
  obtain ⟨hsts, hstay⟩ := lineStarts_loops hback
  have hpairs : ((before.filter fun f => !f.kept).map fun f => (f.line, f.stream.control)) =
      τ.lineStarts ((before.filter fun f => !f.kept).map Fate.line) := by
    rw [hsts, map_map]
    refine map_congr_left fun f hf => ?_
    rw [(hdrop f hf).1]
    rfl
  rw [hkeptLines, hdroppedLines, hwh]
  simp only [append_assoc, cons_append, nil_append, foldl_append, foldl_cons,
    lineStarts_append, lineStarts, hfold, ← hlast, hτ, hstay]
  refine ⟨?_, trivial⟩
  rw [hpairs] at hperm
  refine .trans ?_ (hperm.symm.append_right _)
  rw [append_assoc]
  refine .append_left _ ?_
  exact perm_middle.symm

/-- **A promotion keeps how the output is read.**  The rest of a line that has begun comes first; where it
is a plain line this needs that its rest is kept.  When the lines that are passed over are read, and leave
the stream, in the mode in which the promoted lines end, every line is read in the control mode it was read
in before, and the stream ends as before. -/
theorem promotion_keeps_reading {s : TerminalStream} (hs : Observed s) {bytes promoted : Bytes}
    (h : s.promoteControl bytes = some promoted)
    (hplain : s.midline = true → s.control = false →
      ∀ f ∈ (s.fates (s.completePart bytes)).head?, f.kept = true) :
    (s.midline = true → ∀ line ∈ (splitLines bytes).head?, line <+: promoted) ∧
      (PassesQuietly (s.fates (s.completePart bytes)) →
        (s.lineStarts (splitLines promoted)).Perm (s.lineStarts (splitLines bytes)) ∧
          (s.observe promoted).settle = (s.observe bytes).settle) := by
  obtain ⟨k, hpart, hrest, hlines⟩ := s.completePart_eq bytes
  obtain ⟨hne, hpromoted⟩ := promoteControl_eq h
  generalize hwhole : (splitLines bytes).take k = whole at hpart hlines
  generalize hlater : (splitLines bytes).drop k = later at hrest
  have hbytes : splitLines bytes = whole ++ later := by rw [← hwhole, ← hlater, take_append_drop]
  have hcut : WellCut later := hlater ▸ (wellCut_splitLines bytes).drop k
  have hfates : s.fates (s.completePart bytes) = fatesFrom (s.control && s.midline) s whole := by
    rw [fates, hpart]
    have := splitLines_flatten_append hlines []
    rw [append_nil] at this
    rw [this]
    simp [splitLines]
  generalize (s.control && s.midline) = finishing at hfates
  rw [hfates] at hplain hne hpromoted ⊢
  have hbegun : s.midline = true → ∀ f ∈ (fatesFrom finishing s whole).head?, f.kept = true := by
    intro hmid f hf
    cases hcontrol : s.control with
    | false => exact hplain hmid hcontrol f hf
    | true => exact head_begun hcontrol hmid hf
  obtain ⟨before, last, after, hsplit, hkept, hafter, hrev⟩ := split_last_kept hne
  have hline : ∀ f ∈ fatesFrom finishing s whole, IsLine f.line := fun f hf =>
    hlines _ (map_line_fatesFrom finishing s whole ▸ mem_map_of_mem hf)
  have hlastMem : last ∈ fatesFrom finishing s whole := by simp [hsplit]
  refine ⟨fun hmid line hfirst => ?_, fun hpasses => ?_⟩
  · cases whole with
    | nil => cases hlastMem
    | cons first whole =>
      rw [hbytes, cons_append] at hfirst
      obtain rfl := Option.some.inj hfirst
      rw [fatesFrom] at hbegun hpromoted
      rw [hpromoted, keptBytes_cons, if_pos (hbegun hmid _ rfl), append_assoc, append_assoc]
      exact prefix_append _ _
  have hloops : ∀ f ∈ before, f.kept = false → f.stream = last.stream.observe last.line ∧
      (last.stream.observe last.line).observe f.line = last.stream.observe last.line := by
    intro f hf hdropped
    have hmem : f ∈ fatesFrom finishing s whole := by simp [hsplit, hf]
    unfold PassesQuietly at hpasses
    rw [hrev] at hpasses
    obtain ⟨hread, hleft⟩ := hpasses f (mem_reverse.mpr hf) hdropped
    obtain ⟨hsound, hstart⟩ := start_of_dropped hs.sound hlines hbegun hmem hdropped
    have hend := observe_line (sound_of_fates hs.sound hlastMem) (hline last hlastMem)
    have hstream : f.stream = last.stream.observe last.line := by
      obtain ⟨hcontrol, hblock⟩ := Prod.mk.inj hread
      rw [hstart, hend, hcontrol, hblock]
    refine ⟨hstream, ?_⟩
    rw [← hstream, observe_line_of_modes hsound (hline f hmem) (hleft.trans hread.symm), ← hstart]
  obtain ⟨hperm, hfold⟩ := lineStarts_reordered hsplit hkept hafter hloops later
  have hcutPromoted : splitLines promoted = ((fatesFrom finishing s whole).filter fun f => f.kept).map Fate.line ++
      ((fatesFrom finishing s whole).filter fun f => !f.kept).map Fate.line ++ later := by
    rw [hpromoted, hrest, keptBytes, droppedBytes, flatMap_def, flatMap_def, ← flatten_append,
      splitLines_flatten_append ?_, hcut.splitLines_flatten]
    intro line hmem
    rw [← map_append, mem_map] at hmem
    obtain ⟨f, hf, rfl⟩ := hmem
    refine hline f ?_
    rcases mem_append.mp hf with hf | hf <;> exact mem_of_mem_filter hf
  constructor
  · rw [hcutPromoted, hbytes]
    exact hperm
  · rw [← splitLines_flatten promoted, ← splitLines_flatten bytes, settle_observe hs.sound, settle_observe hs.sound,
      ← settle_foldl_observe hs.sound, ← settle_foldl_observe hs.sound, hcutPromoted, hbytes, hfold]

/-- A session in control mode where a notification overtakes a pane line. -/
theorem promotion_keeps_reading_control : let s := default.observe (ascii "%begin 1\n%end 1\n")
    let bytes := ascii "%output %1 a\n%window-add @1\n%output %1 b"
    let promoted := ascii "%window-add @1\n%output %1 a\n%output %1 b"
    s.promoteControl bytes = some promoted ∧
      (s.lineStarts (splitLines promoted)).Perm (s.lineStarts (splitLines bytes)) :=
  ⟨by decide +kernel, ((promotion_keeps_reading (.observe _ .default) (by decide +kernel)
    fun hmid => absurd hmid (by decide +kernel)).2 (by decide +kernel)).1⟩

/-- **A promoted response can be read in another mode**: here the pane line was what entered control mode,
and the response now precedes it. -/
theorem promotion_swaps_modes : ∃ s bytes promoted line, Observed s ∧ s.promoteControl bytes = some promoted ∧
    (line, true) ∈ s.lineStarts (splitLines bytes) ∧ (line, true) ∉ s.lineStarts (splitLines promoted) :=
  ⟨default, ascii "%output %0 x\n%begin 1 2\nresponse\n%end 1 2\n",
    ascii "%begin 1 2\nresponse\n%end 1 2\n%output %0 x\n", ascii "%begin 1 2\n", .default,
    by decide +kernel, by decide +kernel, by decide +kernel⟩

end TerminalStream
end EternalTerminal
