import EternalTerminal.Core.ControlLines
import EternalTerminal.Lib.Thinning

/-!
# Core — control-mode output without some of its lines

What a tmux control client may be spared: whole lines outside response blocks whose first token is a pane
token or no `%` token at all.  `Thins` is the sequence of lines without some of these; it is stated on the
lines alone, with the blocks read off their first tokens.
-/

namespace EternalTerminal
open Thinning TerminalStream List

/-! ### Lines that may be dropped -/

def isPaneToken (token : Bytes) : Bool := token == ascii "%output" || token == ascii "%extended-output"

/-- The line's first token starts with a percent sign and is not a pane token. -/
def needed (line : Bytes) : Bool :=
  (lineFirstToken line).head? == some percent && !isPaneToken (lineFirstToken line)

/-- Whether the lines after this one are in a response block. -/
def blockNext (block : Bool) (line : Bytes) : Bool := blockAfter (lineFirstToken line) block

/-- The lines without some that are neither in a response block nor needed. -/
abbrev Thins : Bool → List Bytes → List Bytes → Prop :=
  Thinned blockNext fun block line => block = false ∧ needed line = false

theorem needed_of_block {token : Bytes} (h : token = ascii "%begin" ∨ token = ascii "%end" ∨ token = ascii "%error") :
    token.head? == some percent && !isPaneToken token := by
  rcases h with rfl | rfl | rfl <;> decide +kernel

variable {block : Bool} {line bytes last begun rest : Bytes}

theorem blockNext_of_not_needed (block : Bool) (h : needed line = false) :
    blockNext block line = block := by
  unfold blockNext blockAfter
  split
  next hbegin =>
    rw [needed, needed_of_block (.inl (by simpa using hbegin))] at h
    cases h
  split
  next hend =>
    rw [needed, needed_of_block (.inr (by simpa using hend))] at h
    cases h
  · rfl

theorem blockNext_of_may (block : Bool) (line : Bytes) (h : block = false ∧ needed line = false) :
    blockNext block line = block :=
  blockNext_of_not_needed block h.2

/-! ### First tokens -/

theorem takeWhile_append_of_any (h : bytes.any isAsciiWhitespace = true) (rest : Bytes) :
    (bytes ++ rest).takeWhile (fun b => !isAsciiWhitespace b) = bytes.takeWhile fun b => !isAsciiWhitespace b := by
  induction bytes with
  | nil => cases h
  | cons byte bytes ih =>
    rw [any_cons] at h
    cases hbl : isAsciiWhitespace byte with
    | true => simp [hbl]
    | false =>
      rw [hbl, Bool.false_or] at h
      simp [hbl, ih h]

theorem takeWhile_append_of_not_any (h : bytes.any isAsciiWhitespace = false) (rest : Bytes) :
    (bytes ++ rest).takeWhile (fun b => !isAsciiWhitespace b) =
      bytes ++ rest.takeWhile fun b => !isAsciiWhitespace b := by
  refine takeWhile_append_of_pos fun b hb => ?_
  simpa using any_eq_false.mp h b hb

theorem takeWhile_of_not_any (h : bytes.any isAsciiWhitespace = false) :
    bytes.takeWhile (fun b => !isAsciiWhitespace b) = bytes := by
  have := takeWhile_append_of_not_any h []
  rwa [append_nil, takeWhile_nil, append_nil] at this

theorem takeWhile_concat_blank (bytes : Bytes) {byte : UInt8} (h : isAsciiWhitespace byte = true) :
    (bytes ++ [byte]).takeWhile (fun b => !isAsciiWhitespace b) = bytes.takeWhile fun b => !isAsciiWhitespace b := by
  cases hany : bytes.any isAsciiWhitespace with
  | true => exact takeWhile_append_of_any hany _
  | false => rw [takeWhile_append_of_not_any hany, takeWhile_of_not_any hany]; simp [h]

/-- A first token that has ended is the first token of the whole line. -/
theorem lineFirstToken_append (h : bytes.any isAsciiWhitespace = true) (rest : Bytes) :
    lineFirstToken (bytes ++ rest) = lineFirstToken bytes := by
  rw [lineFirstToken, lineFirstToken, takeWhile_append_of_any h]

theorem lineFirstToken_of_not (h : ¬ tmuxDcs <+: line) :
    lineFirstToken line = line.takeWhile fun b => !isAsciiWhitespace b :=
  stripDcs_of_not fun hpre => h (hpre.trans (List.takeWhile_prefix _))

/-- A token of full length opens and closes nothing. -/
theorem blockAfter_take (token : Bytes) (block : Bool) : blockAfter (token.take 32) block = blockAfter token block := by
  by_cases hlen : token.length ≤ 32
  · rw [take_of_length_le hlen]
  have hne : ∀ short : Bytes, short.length < 32 → (token.take 32 == short) = (token == short) := by
    intro short hsh
    have htake : token.take 32 ≠ short := fun h => by
      have := congrArg List.length h
      rw [length_take] at this
      omega
    have htok : token ≠ short := fun h => by rw [h] at hlen; omega
    rw [beq_false_of_ne htake, beq_false_of_ne htok]
  unfold blockAfter
  rw [hne _ (by decide), hne _ (by decide), hne _ (by decide)]

/-! ### Lines read in control mode -/

/-- A line, or the beginning of one, that is read in control mode throughout and does not start with an
introducer. -/
structure CleanLine (block : Bool) (line : Bytes) : Prop where
  control : ∀ p, p <+: line → ((lineStart true block).feed p).control = true
  noDcs : ¬ tmuxDcs <+: line

theorem sound_lineStart (block : Bool) : Sound (lineStart true block) := .lineStart fun _ => rfl

namespace CleanLine
variable {block : Bool} {line : Bytes}

theorem beginning {begun : Bytes} (h : CleanLine block line) (hpre : begun <+: line) : CleanLine block begun :=
  ⟨fun p hp => h.control p (hp.trans hpre), fun hdcs => h.noDcs (hdcs.trans hpre)⟩

theorem nil (block : Bool) : CleanLine block [] := by
  refine ⟨fun p hp => ?_, by decide⟩
  obtain rfl := prefix_nil.mp hp
  rfl

/-- **A line that has begun**: what the stream remembers of it. -/
theorem feed_begun (h : CleanLine block line) (hline : newline ∉ line) :
    ((lineStart true block).feed line).control = true ∧ ((lineStart true block).feed line).block = block ∧
      (line ≠ [] → ((lineStart true block).feed line).midline = true) ∧
      ((lineStart true block).feed line).token = (line.takeWhile fun b => !isAsciiWhitespace b).take 32 ∧
      ((lineStart true block).feed line).tokenDone =
        (line.any isAsciiWhitespace || decide (32 ≤ (line.takeWhile fun b => !isAsciiWhitespace b).length)) := by
  refine ⟨h.control line prefix_rfl, ?_⟩
  induction line using List.reverseRecOn with
  | nil => exact ⟨rfl, fun hne => absurd rfl hne, rfl, rfl⟩
  | append_singleton line byte ih =>
    have hbef := h.beginning (prefix_append line [byte])
    have hnl : byte ≠ newline := fun heq => hline (by simp [heq])
    obtain ⟨hblk, -, htok, hdone⟩ := ih hbef fun hmem => hline (mem_append_left _ hmem)
    have hctl := hbef.control line prefix_rfl
    have haft := h.control _ prefix_rfl
    have hsd := (sound_lineStart block).feed line
    rw [feed_append, feed_cons, feed_nil] at haft ⊢
    generalize (lineStart true block).feed line = s at haft hsd hblk htok hdone hctl ⊢
    obtain ⟨hs₁, hs₂, hs₃, hs₄, -⟩ := (s.observeByte byte).settle_fields
    rw [hs₁, hs₂, hs₄, tokenDone_settle]
    rcases observeByte_cases hsd byte with ⟨heq, -⟩ | ⟨-, heq⟩ | ⟨-, hbl, heq⟩ | ⟨-, hfull, heq⟩ |
      ⟨-, hopen, hdcs, heq⟩ | ⟨-, hbl, hopen, hsh, -, heq⟩ <;> rw [heq] at haft ⊢
    · exact absurd heq hnl
    · -- the terminator would leave control mode
      cases haft
    · refine ⟨hblk, fun _ => rfl, ?_, ?_⟩
      · rw [takeWhile_concat_blank line hbl]
        exact htok
      · simp [hbl]
    · -- the token is done, or as long as what is kept of it
      have hend : s.tokenDone = true := by
        rcases hfull with hfull | hfull
        · exact hfull
        · rw [htok, length_take] at hfull
          simp [hdone, show 32 ≤ (line.takeWhile fun b => !isAsciiWhitespace b).length by omega]
      cases hany : line.any isAsciiWhitespace with
      | true =>
        refine ⟨hblk, fun _ => rfl, ?_, ?_⟩
        · rw [takeWhile_append_of_any hany]
          exact htok
        · simp [hend, hany]
      | false =>
        rw [hend, hany, Bool.false_or, takeWhile_of_not_any hany] at hdone
        have hlong : 32 ≤ line.length := by simpa using hdone.symm
        refine ⟨hblk, fun _ => rfl, ?_, ?_⟩
        · rw [takeWhile_append_of_not_any hany, take_append_of_le_length hlong]
          rw [takeWhile_of_not_any hany] at htok
          exact htok
        · rw [takeWhile_append_of_not_any hany, length_append]
          simp [hend, show 32 ≤ line.length + ([byte].takeWhile fun b => !isAsciiWhitespace b).length by omega]
    · -- the introducer would be the start of the line
      refine absurd ?_ h.noDcs
      rw [hopen] at hdone
      obtain ⟨hany, hlen⟩ := Bool.or_eq_false_iff.mp hdone.symm
      rw [takeWhile_of_not_any hany] at htok hlen
      rw [htok, take_of_length_le (by simpa using Nat.le_of_lt (by simpa using hlen))] at hdcs
      rw [hdcs]
    · rw [hopen] at hdone
      obtain ⟨hany, hlen⟩ := Bool.or_eq_false_iff.mp hdone.symm
      rw [takeWhile_of_not_any hany] at htok hlen
      have hlen : line.length < 32 := by simpa using hlen
      rw [take_of_length_le (Nat.le_of_lt hlen)] at htok
      have hfst : (line ++ [byte]).takeWhile (fun b => !isAsciiWhitespace b) = line ++ [byte] := by
        rw [takeWhile_append_of_not_any hany]
        simp [hbl]
      refine ⟨hblk, fun _ => rfl, ?_, ?_⟩
      · rw [hfst, take_of_length_le (by simpa using hlen)]
        exact congrArg (· ++ [byte]) htok
      · rw [hfst]
        simp [hopen, hany, hbl, htok]

/-- **A whole line** leads to the start of the next, in or out of a block as its first token says. -/
theorem feed_line (h : CleanLine block line) (hline : IsLine line) :
    (lineStart true block).feed line = lineStart true (blockNext block line) := by
  obtain ⟨body, hbody, rfl⟩ := hline
  obtain ⟨hctl, hblk, -, htok, -⟩ := (h.beginning (prefix_append body [newline])).feed_begun hbody
  have hsd := (sound_lineStart block).feed body
  rw [feed_append, feed_cons, feed_nil, observeByte_newline hsd, settle_lineStart, hctl, hblk, htok,
    blockAfter_take, blockNext, lineFirstToken_of_not h.noDcs, takeWhile_concat_blank body (by decide), Bool.true_or]

end CleanLine

/-- Every line is clean where it is read. -/
def CleanLines : Bool → List Bytes → Prop
  | _, [] => True
  | block, line :: lines => CleanLine block line ∧ CleanLines (blockNext block line) lines

theorem cleanLines_append {lines₁ lines₂ : List Bytes} :
    CleanLines block (lines₁ ++ lines₂) ↔
      CleanLines block lines₁ ∧ CleanLines (lines₁.foldl blockNext block) lines₂ := by
  induction lines₁ generalizing block with
  | nil => simp [CleanLines]
  | cons line lines₁ ih =>
    rw [cons_append, CleanLines, CleanLines, ih, and_assoc]
    rfl

theorem CleanLines.feed {lines : List Bytes} (h : CleanLines block lines) (hlin : ∀ line ∈ lines, IsLine line) :
    (lineStart true block).feed lines.flatten = lineStart true (lines.foldl blockNext block) := by
  induction lines generalizing block with
  | nil => rfl
  | cons line lines ih =>
    obtain ⟨hline, hrest⟩ := forall_mem_cons.mp hlin
    rw [flatten_cons, feed_append, h.1.feed_line hline, ih h.2 hrest]
    rfl

/-- The lines that are left are read where they were read. -/
theorem CleanLines.thinned {lines kept : List Bytes} (hthins : Thins block lines kept)
    (h : CleanLines block lines) : CleanLines block kept := by
  induction hthins with
  | nil => trivial
  | keep _ ih => exact ⟨h.1, ih h.2⟩
  | drop hmay _ ih =>
    have := ih h.2
    rwa [blockNext_of_may _ _ hmay] at this

/-! ### Filters thin the lines -/

/-- A line that is dropped where a line starts in control mode. -/
theorem may_of_not_keeps (h : (lineStart true block).keeps line = false) :
    block = false ∧ needed line = false := by
  simp only [keeps, lineStart, Bool.or_eq_false_iff, Bool.and_eq_false_iff] at h
  obtain ⟨⟨⟨⟨hblk, -⟩, htok⟩, -⟩, -⟩ := h
  refine ⟨hblk, ?_⟩
  rw [needed, Bool.and_eq_false_iff]
  rcases htok with ⟨-, htok⟩ | htok
  · exact .inl (by simpa using htok)
  · exact .inr htok

namespace TerminalStream

/-- A line that is dropped before its end is a pane line whose first token has ended. -/
def Fate.cutsCleanly (f : Fate) : Bool :=
  f.kept || f.line.getLast? == some newline ||
    (isPaneToken (lineFirstToken f.line) && f.line.any isAsciiWhitespace)

theorem Fate.not_cutsPane_of_line {f : Fate} (h : IsLine f.line) : f.cutsPane = false := by
  simp [Fate.cutsPane, h.getLast?]

theorem Fate.not_cutsPane_of_kept {f : Fate} (h : f.kept = true) : f.cutsPane = false := by
  simp [Fate.cutsPane, h]

end TerminalStream

/-- A pane line stays one however it goes on. -/
theorem not_needed_append (hpane : isPaneToken (lineFirstToken line) = true)
    (hend : line.any isAsciiWhitespace = true) (rest : Bytes) : needed (line ++ rest) = false := by
  rw [needed, lineFirstToken_append hend, hpane, Bool.not_true, Bool.and_false]

/-- What became of the beginning of a line at the end of the queue: it is kept, or it is dropped and its
rest will be skipped. -/
inductive LastLine (block : Bool) (last : Bytes) : Bytes → Bool → Prop where
  | kept : LastLine block last last false
  | cut (hblock : block = false) (hneeded : ∀ rest, needed (last ++ rest) = false) : LastLine block last [] true

section
variable {lines : List Bytes} (hlin : ∀ line ∈ lines, IsLine line) (hlast : newline ∉ last)
include hlin hlast

/-- **From the start of a line a filter thins the lines.** -/
theorem thins_fatesFrom {finishing : Bool} (hcln : CleanLines block lines)
    (hcuts : ∀ f ∈ fatesFrom finishing (lineStart true block) (splitLines (lines.flatten ++ last)),
      f.cutsCleanly = true) :
    ∃ kept rest skips, Thins block lines kept ∧ LastLine (lines.foldl blockNext block) last rest skips ∧
      keptBytes (fatesFrom finishing (lineStart true block) (splitLines (lines.flatten ++ last))) =
        kept.flatten ++ rest ∧
      (fatesFrom finishing (lineStart true block) (splitLines (lines.flatten ++ last))).any Fate.cutsPane =
        skips := by
  induction lines generalizing finishing block with
  | nil =>
    rw [flatten_nil, nil_append] at hcuts ⊢
    by_cases hnil : last = []
    · subst hnil
      exact ⟨[], [], false, .nil _, .kept, rfl, rfl⟩
    rw [splitLines_remainder ⟨hnil, hlast⟩, fatesFrom] at hcuts ⊢
    have hcut := hcuts _ mem_cons_self
    rw [fatesFrom_nil, keptBytes_cons, keptBytes_nil, any_cons, any_nil, append_nil, Bool.or_false]
    cases hkept : finishing && !(last.head? == some percent || last.head? == some newline) ||
        (lineStart true block).keeps last with
    | true => exact ⟨[], last, false, .nil _, .kept, rfl, Fate.not_cutsPane_of_kept rfl⟩
    | false =>
      obtain ⟨hblk, -⟩ := may_of_not_keeps (Bool.or_eq_false_iff.mp hkept).2
      have hopen : (last.getLast? == some newline) = false :=
        beq_false_of_ne fun h => hlast (List.mem_of_getLast? h)
      rw [hkept] at hcut
      simp only [Fate.cutsCleanly, hopen, Bool.false_or, Bool.and_eq_true] at hcut
      refine ⟨[], [], true, .nil _, .cut hblk (not_needed_append hcut.1 hcut.2), rfl, ?_⟩
      simp only [Fate.cutsPane, bne, hopen, Bool.not_false, Bool.and_true, Bool.true_and]
      exact hcut.1
  | cons line lines ih =>
    obtain ⟨hline, hrest⟩ := forall_mem_cons.mp hlin
    have hnext : (lineStart true block).observe line = lineStart true (blockNext block line) := by
      rw [observe_line_eq (sound_lineStart block) hline, settle_lineStart, hcln.1.feed_line hline]
    rw [flatten_cons, append_assoc, splitLines_line_append hline, fatesFrom, hnext] at hcuts ⊢
    generalize (finishing && !(line.head? == some percent || line.head? == some newline)) = finishing' at hcuts ⊢
    obtain ⟨kept, rest, skips, hthins, hlastLine, hbs, hsk⟩ :=
      ih hrest hcln.2 fun f hf => hcuts f (mem_cons_of_mem _ hf)
    rw [keptBytes_cons, any_cons, Fate.not_cutsPane_of_line hline, Bool.false_or, hbs, hsk]
    cases hkept : finishing' || (lineStart true block).keeps line with
    | true =>
      refine ⟨line :: kept, rest, skips, .keep hthins, hlastLine, ?_, rfl⟩
      rw [if_pos rfl, flatten_cons, append_assoc]
    | false =>
      have hmay := may_of_not_keeps (Bool.or_eq_false_iff.mp hkept).2
      exact ⟨kept, rest, skips, .drop hmay hthins, hlastLine, rfl, rfl⟩

/-- Bytes that end inside whole lines and the beginning of another: the lines before, and the beginning of
the one they end in. -/
theorem cut_lines {front back : Bytes} (h : front ++ back = lines.flatten ++ last) :
    ∃ before after begun, lines = before ++ after ∧ front = before.flatten ++ begun ∧ newline ∉ begun ∧
      begun ++ back = after.flatten ++ last := by
  induction lines generalizing front with
  | nil =>
    refine ⟨[], [], front, rfl, rfl, fun hmem => hlast ?_, h⟩
    rw [flatten_nil, nil_append] at h
    exact h ▸ mem_append_left _ hmem
  | cons line lines ih =>
    obtain ⟨hline, hrest⟩ := forall_mem_cons.mp hlin
    rw [flatten_cons, append_assoc] at h
    by_cases hlen : line.length ≤ front.length
    · obtain ⟨rest, rfl⟩ : line <+: front :=
        prefix_of_prefix_length_le (prefix_append line _) (h ▸ prefix_append front back) hlen
      rw [append_assoc] at h
      obtain ⟨before, after, begun, rfl, rfl, hbeg, hback⟩ := ih hrest (append_cancel_left h)
      exact ⟨line :: before, after, begun, rfl, by rw [flatten_cons, append_assoc], hbeg, hback⟩
    refine ⟨[], line :: lines, front, rfl, rfl, fun hmem => ?_, ?_⟩
    · -- the line's only newline is its last byte
      obtain ⟨body, hbody, rfl⟩ := hline
      have hpre : front <+: body ++ [newline] :=
        prefix_of_prefix_length_le (h ▸ prefix_append front back) (prefix_append _ _) (by omega)
      rcases prefix_concat_iff.mp hpre with heq | hpre
      · exact hlen (by rw [heq])
      · exact hbody (hpre.subset hmem)
    · rw [flatten_cons, append_assoc]
      exact h

end

/-- The line that has begun ends in what follows. -/
theorem line_of_begun {later : Bytes} (hline : IsLine line) (hbeg : newline ∉ begun)
    (h : begun ++ rest = line ++ later) : ∃ ending, line = begun ++ ending ∧ IsLine ending ∧ rest = ending ++ later := by
  obtain ⟨body, hbody, rfl⟩ := hline
  have hlen : begun.length ≤ body.length := by
    refine Nat.not_lt.mp fun hlt => hbeg ?_
    have hpre : body ++ [newline] <+: begun :=
      prefix_of_prefix_length_le (prefix_append _ later) (h ▸ prefix_append begun rest)
        (by simpa using hlt)
    exact hpre.subset (by simp)
  obtain ⟨ending, rfl⟩ : begun <+: body :=
    prefix_of_prefix_length_le (prefix_append begun rest)
      (by rw [h, append_assoc]; exact prefix_append _ _) hlen
  refine ⟨ending ++ [newline], by rw [append_assoc], ⟨ending, fun hmem => hbody ?_, rfl⟩, ?_⟩
  · exact mem_append_right _ hmem
  · rw [append_assoc, append_assoc] at h
    rw [append_cancel_left h, append_assoc]

/-- **A filter thins the lines**, also where a line has begun: that line is kept. -/
theorem thins_fates {lines : List Bytes} {queued : Bytes}
    (hlin : ∀ line ∈ lines, IsLine line) (hlast : newline ∉ last) (hcln : CleanLines block lines)
    (hlastClean : CleanLine (lines.foldl blockNext block) last) (hbeg : newline ∉ begun)
    (hrest : begun ++ queued = lines.flatten ++ last) {s : TerminalStream} (hs : Sound s)
    (hsettle : s.settle = (lineStart true block).feed begun)
    (hcuts : ∀ f ∈ s.fates queued, f.cutsCleanly = true) :
    ∃ kept rest skips, Thins block lines kept ∧ LastLine (lines.foldl blockNext block) last rest skips ∧
      begun ++ keptBytes (s.fates queued) = kept.flatten ++ rest ∧ (s.fates queued).any Fate.cutsPane = skips := by
  by_cases hnil : begun = []
  · subst hnil
    obtain rfl := eq_lineStart_of_settle hsettle
    subst hrest
    exact thins_fatesFrom hlin hlast hcln hcuts
  -- the stream is in the middle of a line, in control mode
  have hread : CleanLine block begun := by
    cases lines with
    | nil =>
      rw [flatten_nil, nil_append] at hrest
      exact hlastClean.beginning (hrest ▸ prefix_append _ _)
    | cons line lines =>
      rw [flatten_cons, append_assoc] at hrest
      obtain ⟨ending, heq, -⟩ := line_of_begun (hlin line mem_cons_self) hbeg hrest
      exact hcln.1.beginning (heq ▸ prefix_append _ _)
  obtain ⟨hctl, -, hmid, -⟩ := hread.feed_begun hbeg
  have hmid := hmid hnil
  rw [← hsettle, s.settle_fields.2.2.1] at hctl
  rw [← hsettle, s.settle_fields.2.1] at hmid
  unfold fates at hcuts ⊢
  cases lines with
  | nil =>
    subst hrest
    by_cases hemp : queued = []
    · subst hemp
      exact ⟨[], _, false, .nil _, .kept, rfl, rfl⟩
    · rw [splitLines_remainder ⟨hemp, fun hmem => hlast (mem_append_right _ hmem)⟩, fatesFrom,
        keeps_begun hctl hmid, Bool.or_true]
      exact ⟨[], _, false, .nil _, .kept, by simp [keptBytes], rfl⟩
  | cons line lines =>
    obtain ⟨hline, haft⟩ := forall_mem_cons.mp hlin
    rw [flatten_cons, append_assoc] at hrest
    obtain ⟨ending, rfl, hending, rfl⟩ := line_of_begun hline hbeg hrest
    have hnext : s.observe ending = lineStart true (blockNext block (begun ++ ending)) := by
      rw [observe_line_eq hs hending, hsettle, ← feed_append, hcln.1.feed_line hline]
    rw [splitLines_line_append hending, fatesFrom, keeps_begun hctl hmid, Bool.or_true, hnext] at hcuts ⊢
    obtain ⟨kept, rest, skips, hthins, hlastLine, hbs, hsk⟩ :=
      thins_fatesFrom haft hlast hcln.2 fun f hf => hcuts f (mem_cons_of_mem _ hf)
    refine ⟨(begun ++ ending) :: kept, rest, skips, .keep hthins, hlastLine, ?_, ?_⟩
    · rw [keptBytes_cons, if_pos rfl, hbs, flatten_cons]
      simp only [append_assoc]
    · rw [any_cons, Fate.not_cutsPane_of_kept rfl, Bool.false_or, hsk]

/-- Appending to the beginning of a line completes it and perhaps others. -/
theorem append_lines (begun bytes : Bytes) :
    ∃ (lines : List Bytes) (part : Bytes), begun ++ bytes = lines.flatten ++ part ∧
      (∀ line ∈ lines, IsLine line) ∧ newline ∉ part := by
  obtain ⟨lines, last, hspl, hlin, hlast⟩ := wellCut_splitLines (begun ++ bytes)
  refine ⟨lines, last.flatten, ?_, hlin, ?_⟩
  · rw [← flatten_append, ← hspl, splitLines_flatten]
  · rcases hlast with rfl | ⟨part, rfl, hpart⟩
    · nofun
    · simpa using hpart.2

/-! ### Output in control mode -/

/-- Output, from the start of a line on, that is in control mode throughout. -/
def ControlThroughout (block : Bool) (bytes : Bytes) : Prop :=
  ∀ p ∈ bytes.inits, ((lineStart true block).observe p).control = true

instance (block : Bool) (bytes : Bytes) : Decidable (ControlThroughout block bytes) :=
  inferInstanceAs (Decidable (∀ p ∈ bytes.inits, _))

/-- No line starts with an introducer. -/
def NoIntroducer (bytes : Bytes) : Prop := ∀ line ∈ splitLines bytes, ¬ tmuxDcs <+: line

instance (bytes : Bytes) : Decidable (NoIntroducer bytes) :=
  inferInstanceAs (Decidable (∀ line ∈ splitLines bytes, _))

theorem control_observe (block : Bool) (bytes : Bytes) :
    ((lineStart true block).observe bytes).control = ((lineStart true block).feed bytes).control :=
  congrArg Prod.fst (modes_observe (sound_lineStart block) bytes)

/-- The beginning of a line is the beginning of one of the lines. -/
theorem mem_splitLines_of_begun (hne : begun ≠ []) (hbeg : newline ∉ begun) (rest : Bytes) :
    ∃ line ∈ splitLines (begun ++ rest), begun <+: line := by
  obtain ⟨lines, part, hspl, hlin, hpart⟩ := append_lines begun rest
  cases lines with
  | nil =>
    rw [flatten_nil, nil_append] at hspl
    refine ⟨part, ?_, hspl ▸ prefix_append _ _⟩
    rw [hspl, splitLines_remainder ⟨fun hnil => hne ?_, hpart⟩]
    · exact mem_singleton_self _
    · rw [hnil] at hspl
      exact (append_eq_nil_iff.mp hspl).1
  | cons line lines =>
    obtain ⟨hline, -⟩ := forall_mem_cons.mp hlin
    rw [flatten_cons, append_assoc] at hspl
    obtain ⟨ending, rfl, -⟩ := line_of_begun hline hbeg hspl
    refine ⟨begun ++ ending, ?_, prefix_append _ _⟩
    rw [hspl, splitLines_line_append hline]
    exact mem_cons_self

/-- The lines of such output are clean. -/
theorem ControlThroughout.lines {lines : List Bytes} {part : Bytes}
    (h : ControlThroughout block (lines.flatten ++ part ++ rest))
    (hintro : NoIntroducer (lines.flatten ++ part ++ rest)) (hlin : ∀ line ∈ lines, IsLine line)
    (hpart : newline ∉ part) : CleanLines block lines ∧ CleanLine (lines.foldl blockNext block) part := by
  induction lines generalizing block with
  | nil =>
    refine ⟨trivial, fun p hp => ?_, fun hdcs => ?_⟩
    · rw [foldl_nil, ← control_observe]
      exact h p ((mem_inits _ _).mpr (hp.trans (prefix_append _ _)))
    · have hne : part ≠ [] := fun hnil => by
        rw [hnil] at hdcs
        exact absurd hdcs (by decide)
      obtain ⟨line, hline, hpre⟩ := mem_splitLines_of_begun hne hpart rest
      exact hintro line hline (hdcs.trans hpre)
  | cons line lines ih =>
    obtain ⟨hline, haft⟩ := forall_mem_cons.mp hlin
    simp only [flatten_cons, append_assoc] at h hintro ih
    unfold NoIntroducer at hintro
    rw [splitLines_line_append hline, forall_mem_cons] at hintro
    have hfst : CleanLine block line := by
      refine ⟨fun p hp => ?_, hintro.1⟩
      rw [← control_observe]
      exact h p ((mem_inits _ _).mpr (hp.trans (prefix_append _ _)))
    have hrest : ControlThroughout (blockNext block line) (lines.flatten ++ (part ++ rest)) := by
      intro p hp
      have hread := h (line ++ p)
        ((mem_inits _ _).mpr ((prefix_append_right_inj line).mpr ((mem_inits _ _).mp hp)))
      rwa [control_observe, feed_append, hfst.feed_line hline, ← control_observe] at hread
    obtain ⟨hcln, hlast⟩ := ih hrest hintro.2 haft
    exact ⟨⟨hfst, hcln⟩, hlast⟩

/-! ### What a queue carries -/

/-- Of the output `taken`, which is `lines` and the beginning `part` of another line, `carried` is left:
the lines `kept` and, unless its rest is to be skipped, `part`. -/
structure Carried (block : Bool) (lines kept : List Bytes) (part taken carried : Bytes) (skips : Bool) : Prop where
  whole : ∀ line ∈ lines, IsLine line
  begun : newline ∉ part
  taken_eq : taken = lines.flatten ++ part
  thins : Thins block lines kept
  carried_eq : carried = kept.flatten ++ if skips then [] else part
  cut : skips = true → lines.foldl blockNext block = false ∧ ∀ rest, needed (part ++ rest) = false

namespace Carried
variable {block skips : Bool} {lines kept : List Bytes} {part taken carried : Bytes}

theorem kept_whole (h : Carried block lines kept part taken carried skips) : ∀ line ∈ kept, IsLine line :=
  fun line hline => h.whole line (h.thins.sublist.subset hline)

theorem foldl_kept (h : Carried block lines kept part taken carried skips) :
    kept.foldl blockNext block = lines.foldl blockNext block :=
  h.thins.foldl_eq blockNext_of_may

/-- Output that is queued. -/
theorem append (h : Carried block lines kept part taken carried false) (bytes : Bytes) :
    ∃ lines kept part, Carried block lines kept part (taken ++ bytes) (carried ++ bytes) false := by
  obtain ⟨more, part', hspl, hmore, hpart'⟩ := append_lines part bytes
  refine ⟨lines ++ more, kept ++ more, part', ?_, hpart', ?_, h.thins.append (.refl _ _), ?_, nofun⟩
  · exact forall_mem_append.mpr ⟨h.whole, hmore⟩
  · rw [h.taken_eq, append_assoc, hspl, flatten_append, append_assoc]
  · rw [h.carried_eq, if_neg Bool.false_ne_true, if_neg Bool.false_ne_true, append_assoc, hspl,
      flatten_append, append_assoc]

section
variable {bytes : Bytes} (h : Carried block lines kept part taken carried true) (hbs : newline ∉ bytes)
include h hbs

/-- Output that is skipped, with no newline in it. -/
theorem skipAll :
    Carried block lines kept (part ++ bytes) (taken ++ bytes) carried true where
  whole := h.whole
  begun := fun hmem => (mem_append.mp hmem).elim h.begun hbs
  taken_eq := by rw [h.taken_eq, append_assoc]
  thins := h.thins
  carried_eq := h.carried_eq
  cut := fun hsk => ⟨(h.cut hsk).1, fun rest => by rw [append_assoc]; exact (h.cut hsk).2 _⟩

/-- Output that is skipped up to its newline. -/
theorem skipLine :
    Carried block (lines ++ [part ++ bytes ++ [newline]]) kept [] (taken ++ (bytes ++ [newline])) carried false := by
  obtain ⟨hblk, hneed⟩ := h.cut rfl
  refine ⟨forall_mem_append.mpr ⟨h.whole, forall_mem_singleton.mpr ?_⟩, nofun, ?_, ?_, ?_, nofun⟩
  · exact ⟨part ++ bytes, fun hmem => (mem_append.mp hmem).elim h.begun hbs, rfl⟩
  · simp [h.taken_eq]
  · have hmay : lines.foldl blockNext block = false ∧ needed (part ++ bytes ++ [newline]) = false := by
      rw [append_assoc]
      exact ⟨hblk, hneed _⟩
    have hthins := h.thins.append (.drop hmay (.nil _))
    rwa [append_nil] at hthins
  · rw [h.carried_eq]
    simp

end

/-- **A filter thins what is carried.**  The queue holds the end of it, from `sent` on. -/
theorem filter {sent queued : Bytes} (h : Carried block lines kept part taken (sent ++ queued) skips)
    (hcln : CleanLines block lines) (hpart : CleanLine (lines.foldl blockNext block) part)
    {s : TerminalStream} (hs : Sound s) (hsettle : s.settle = (lineStart true block).feed sent)
    (hcuts : ∀ f ∈ s.fates queued, f.cutsCleanly = true) :
    ∃ kept, Carried block lines kept part taken (sent ++ (s.filter queued).kept)
      (skips || (s.filter queued).skipUntilNewline) := by
  obtain ⟨hkeptBytes, -, hsk⟩ := s.partition_eq queued false
  rw [TerminalStream.filter, hkeptBytes, hsk]
  -- what is carried ends in the beginning of a line, or at the start of one
  obtain ⟨last, hlast⟩ : ∃ last, last = if skips then [] else part := ⟨_, rfl⟩
  have hopen : newline ∉ last := by
    rw [hlast]
    split
    · simp
    · exact h.begun
  have hlastClean : CleanLine (kept.foldl blockNext block) last := by
    rw [hlast, h.foldl_kept]
    split
    · exact .nil _
    · exact hpart
  have hkeptClean := hcln.thinned h.thins
  have hcar := h.carried_eq
  rw [← hlast] at hcar
  obtain ⟨before, after, begun, hkept, rfl, hbeg, hrest⟩ := cut_lines h.kept_whole hopen hcar
  have hwh := h.kept_whole
  have hfold := h.foldl_kept
  have hthins := h.thins
  rw [hkept, cleanLines_append] at hkeptClean
  rw [hkept] at hlastClean hwh hfold hthins
  rw [foldl_append] at hlastClean hfold
  have hfro := hkeptClean.1.feed fun line hline => hwh line (mem_append_left _ hline)
  rw [feed_append, hfro] at hsettle
  obtain ⟨after', rest, flag, haft, hlastLine, hbs, hflag⟩ :=
    thins_fates (fun line hline => hwh line (mem_append_right _ hline)) hopen hkeptClean.2 hlastClean
      hbeg hrest hs hsettle hcuts
  refine ⟨before ++ after', h.whole, h.begun, h.taken_eq,
    hthins.trans blockNext_of_may ((Thinned.refl _ before).append haft), ?_, ?_⟩
  · rw [append_assoc, hbs, hflag, flatten_append, append_assoc]
    cases hlastLine with
    | kept => rw [Bool.or_false, hlast]
    | cut => rw [Bool.or_true, if_pos rfl]
  · rw [hflag]
    intro hskip
    cases hlastLine with
    | kept => exact h.cut (by rwa [Bool.or_false] at hskip)
    | cut hblk hneed =>
      cases skips with
      | true => exact h.cut rfl
      | false =>
        rw [hlast] at hneed
        exact ⟨hfold ▸ hblk, hneed⟩

end Carried

end EternalTerminal
