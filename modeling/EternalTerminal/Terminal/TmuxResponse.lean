import EternalTerminal.Terminal.TmuxFilter

/-!
# Terminal — responses in tmux control mode

A response is a `%begin` line, any lines, and the `%end` or `%error` line with the same arguments.  The lines between
are the client's, whatever they are.  The filter knows the end of a response by the first word of a line alone:
`response_kept_whole_iff` says that it keeps a response whole, in any chunks, just when no line between starts with the
word `%end`, `%error` or `%exit` (and the arguments hold no string terminator).

In a response the state of a line is what its bytes so far say (`InLine`): nothing yet, or what its first word will be
to the filter, whatever follows.
-/

namespace EternalTerminal
open List

def isWordByte (b : UInt8) : Bool := !isAsciiWhitespace b

/-- What stands before the first blank. -/
def firstWord (line : Bytes) : Bytes := line.takeWhile isWordByte

/-- A line that ends neither a response nor control mode to the filter. -/
def InertLine (line : Bytes) : Prop :=
  firstWord line ≠ endToken ∧ firstWord line ≠ errorToken ∧ firstWord line ≠ exitToken

/-- A line of a token and its arguments, without the newline. -/
def tokenLine (token args : Bytes) : Bytes := token ++ 0x20 :: args

def withNewline (line : Bytes) : Bytes := line ++ [newline]

/-- A response of tmux, with the lines between its first and its last line. -/
structure TmuxResponse where
  args : Bytes
  body : List Bytes
  failed : Bool
  args_line : newline ∉ args
  body_lines : ∀ line ∈ body, newline ∉ line
  /-- The last line is the first that closes the response. -/
  first : ∀ line ∈ body, line ≠ tokenLine endToken args ∧ line ≠ tokenLine errorToken args

namespace TmuxResponse

def opening (r : TmuxResponse) : Bytes := withNewline (tokenLine beginToken r.args)

def closing (r : TmuxResponse) : Bytes :=
  withNewline (tokenLine (if r.failed then errorToken else endToken) r.args)

def bytes (r : TmuxResponse) : Bytes := r.opening ++ r.body.flatMap withNewline ++ r.closing

/-- No line between is taken for the end of the response or of control mode, and the arguments hold no terminator. -/
def Undisturbed (r : TmuxResponse) : Prop := ¬ tmuxSt <:+: r.args ∧ ∀ line ∈ r.body, InertLine line

end TmuxResponse
variable {p : Bytes}

/-- The first `n` bytes of a chunked input, in the same chunks. -/
def cutChunks : Nat → List Bytes → List Bytes
  | _, [] => []
  | n, chunk :: chunks =>
    if n ≤ chunk.length then [chunk.take n] else chunk :: cutChunks (n - chunk.length) chunks

/-- The filter after `n` bytes of the chunks; in the middle of a chunk it is the state that the loop has there
(`TmuxCcFilter.apply_append`). -/
def filterAfter (f : TmuxCcFilter) (chunks : List Bytes) (n : Nat) : TmuxCcFilter := (f.applyAll (cutChunks n chunks)).2

/-- The response passes unchanged, control mode lasts, and the response is open until its last line. -/
structure KeptWhole (f : TmuxCcFilter) (r : TmuxResponse) (chunks : List Bytes) : Prop where
  output : (f.applyAll (cutChunks r.bytes.length chunks)).1 = r.bytes
  passed : r.bytes <+: (f.applyAll chunks).1
  control : ∀ n ≤ r.bytes.length, (filterAfter f chunks n).control = true
  response : ∀ n, r.opening.length ≤ n → n < r.bytes.length → (filterAfter f chunks n).response = true
  closed : (filterAfter f chunks r.bytes.length).response = false

/-! ### Words -/

theorem firstWord_append_of_word (hp : ∀ b ∈ p, isWordByte b = true) (more : Bytes) :
    firstWord (p ++ more) = p ++ firstWord more := by
  rw [firstWord, takeWhile_append_of_pos hp, firstWord]

theorem firstWord_blank {b : UInt8} (hp : ∀ b ∈ p, isWordByte b = true) (hb : isWordByte b = false)
    (more : Bytes) : firstWord (p ++ b :: more) = p := by
  rw [firstWord_append_of_word hp, firstWord, takeWhile_cons_of_neg (by simp [hb]), append_nil]

/-- A word that does something at the end of its line. -/
theorem afterToken_ne_none {word : Bytes} (h : afterToken word ≠ .none) : word ∈ responseTokens := by
  unfold afterToken at h
  simp only [responseTokens, mem_cons, not_mem_nil, or_false]
  split at h
  · exact .inl ‹_›
  split at h
  next hword =>
    rcases hword with hword | hword
    · exact .inr (.inl hword)
    · exact .inr (.inr (.inl hword))
  · split at h
    · exact .inr (.inr (.inr ‹_›))
    · exact absurd rfl h

/-- The start of a token shows as one from its second byte on. -/
theorem isNotification_of_isPrefix {token : Bytes} (htok : token ∈ responseTokens) (hp : p <+: token) :
    p = [] ∨ p = [percent] ∨ isNotification p = true := by
  obtain ⟨n, rfl⟩ : ∃ n, p = token.take n := ⟨p.length, prefix_iff_eq_take.mp hp⟩
  have hall : ∀ token ∈ responseTokens, ∀ n < 7, token.take n = [] ∨ token.take n = [percent] ∨
      isNotification (token.take n) = true := by decide +kernel
  have hlong : ∀ token ∈ responseTokens, token.length ≤ 6 ∧ token.take 6 = token := by decide +kernel
  by_cases hn : n < 7
  · exact hall token htok n hn
  · rw [take_of_length_le (by have := (hlong token htok).1; omega), ← (hlong token htok).2]
    exact hall token htok 6 (by decide)

theorem isNotification_append (hp : isNotification p = true) (more : Bytes) :
    isNotification (p ++ more) = true := by
  match p, hp with
  | _ :: _ :: _, hp => exact hp

/-- The bytes of a line so far decide what its end does. -/
def Decided (p : Bytes) (after : AfterLine) : Prop := ∀ more, afterToken (firstWord (p ++ more)) = after

theorem Decided.append {after : AfterLine} (h : Decided p after) (more : Bytes) :
    Decided (p ++ more) after := fun rest => by
  rw [append_assoc]
  exact h (more ++ rest)

theorem decided_of_blank {b : UInt8} (hp : ∀ b ∈ p, isWordByte b = true) (hb : isWordByte b = false) :
    Decided (p ++ [b]) (afterToken p) := fun more => by
  rw [append_assoc, singleton_append, firstWord_blank hp hb]

/-- Bytes that are not the start of a token. -/
theorem decided_none (hp : ∀ b ∈ p, isWordByte b = true)
    (hno : ∀ token ∈ responseTokens, ¬ p <+: token) : Decided p .none := fun more => by
  by_contra hne
  rw [firstWord_append_of_word hp] at hne
  exact hno _ (afterToken_ne_none hne) (prefix_append _ _)

namespace TmuxCcFilter
variable {f : TmuxCcFilter} {b : UInt8} {p line : Bytes}

/-- In a response, with `p` of the current line. -/
structure InLine (f : TmuxCcFilter) (p : Bytes) : Prop where
  control : f.control = true
  response : f.response = true
  reading : (f.line = .linePrefix ∧ f.pending = p ∧ ∀ b ∈ p, isWordByte b = true) ∨
    ∃ after, f.line = .pass after ∧ f.pending = [] ∧ Decided p after

/-- What a line with these first bytes is in a response. -/
theorem decided_lineOf {line : FilterLine} (hresp : f.response = true)
    (hp : ∀ b ∈ p, isWordByte b = true) (hpct : p ++ [b] ≠ [percent]) (h : f.lineOf (p ++ [b]) b = some line) :
    ∃ after, line = .pass after ∧ Decided (p ++ [b]) after := by
  unfold lineOf at h
  split at h
  · split at h
    next hbl =>
      rw [dropLast_concat] at h
      exact ⟨_, (Option.some.inj h).symm, decided_of_blank hp (by simp [isWordByte, hbl])⟩
    next hword =>
      split at h
      · cases h
      rename_i hno
      refine ⟨_, (Option.some.inj h).symm, decided_none ?_ ?_⟩
      · exact forall_mem_append.mpr ⟨hp, forall_mem_singleton.mpr (by simp [isWordByte, hword])⟩
      · intro token htok hsts
        exact hno (any_eq_true.mpr ⟨token, htok, List.isPrefixOf_iff_prefix.mpr hsts⟩)
  next hnotification =>
    refine ⟨_, (Option.some.inj h).symm, ?_⟩
    by_cases hbl : isWordByte b = false
    · -- the word before the blank would show as a notification, were it a token
      have hdec := decided_of_blank hp hbl
      have hnone : afterToken p = .none := by
        by_contra hne
        have htok := afterToken_ne_none hne
        rcases isNotification_of_isPrefix htok prefix_rfl with rfl | rfl | hp'
        · exact absurd htok (by decide +kernel)
        · exact absurd htok (by decide +kernel)
        · exact hnotification (isNotification_append hp' [b])
      rwa [hnone] at hdec
    · refine decided_none ?_ ?_
      · exact forall_mem_append.mpr ⟨hp, forall_mem_singleton.mpr (Bool.eq_true_of_not_eq_false hbl)⟩
      · intro token htok hsts
        rcases isNotification_of_isPrefix htok hsts with hnil | hone | htrue
        · exact absurd hnil (by simp)
        · exact hpct hone
        · exact hnotification htrue

theorem endByte_of_ne (f : TmuxCcFilter) (hb : b ≠ newline) :
    f.endByte b = { f with escape := b == EternalTerminal.escape } := by
  rw [endByte, if_neg hb]

theorem inLine_endByte {after : AfterLine} (hctl : f.control = true)
    (hresp : f.response = true) (hb : b ≠ newline) (hdec : Decided p after) :
    InLine (endByte { f with line := .pass after, pending := [] } b) p := by
  rw [endByte_of_ne _ hb]
  exact ⟨hctl, hresp, .inr ⟨after, rfl, rfl, hdec⟩⟩

/-- The bytes with which a terminator or a token starts hold no blank. -/
theorem word_of_open
    (h : (p.isPrefixOf tmuxSt || p == [percent]) = true ∨ (responseTokens.any fun token => p.isPrefixOf token) = true) :
    ∀ b ∈ p, isWordByte b = true := by
  have hall : ∀ token ∈ tmuxSt :: [percent] :: responseTokens, ∀ b ∈ token, isWordByte b = true := by decide +kernel
  obtain ⟨token, htok, hsts⟩ : ∃ token ∈ tmuxSt :: [percent] :: responseTokens, p <+: token := by
    rcases h with h | h
    · rcases Bool.or_eq_true_iff.mp h with h | h
      · exact ⟨tmuxSt, mem_cons_self, List.isPrefixOf_iff_prefix.mp h⟩
      · exact ⟨[percent], by simp, by rw [beq_iff_eq.mp h]⟩
    · obtain ⟨token, htok, hsts⟩ := any_eq_true.mp h
      exact ⟨token, by simp [htok], List.isPrefixOf_iff_prefix.mp hsts⟩
  exact fun b hb => hall token htok b (hsts.subset hb)

theorem lineOf_none (hresp : f.response = true)
    (h : f.lineOf p b = none) : (responseTokens.any fun token => p.isPrefixOf token) = true := by
  unfold lineOf at h
  split at h
  · split at h
    · cases h
    · split at h
      · assumption
      · cases h
  · cases h

/-- A byte in the middle of a line of a response. -/
theorem step_inLine (h : f.InLine p) (hb : b ≠ newline) :
    (f.step b).2.InLine (p ++ [b]) ∧ (f.step b).1 ++ (f.step b).2.pending = f.pending ++ [b] := by
  obtain ⟨hctl, hresp, ⟨hline, rfl, hword⟩ | ⟨after, hline, hpend, hdec⟩⟩ := h
  · have hstep : f.step b = f.atPrefix b := by simp [step, hctl, hline]
    rw [hstep, atPrefix, if_neg (by simp [hresp])]
    split
    next hopen =>
      exact ⟨⟨hctl, hresp, .inl ⟨hline, rfl, word_of_open (.inl hopen)⟩⟩, rfl⟩
    rename_i hopen
    have hpct : f.pending ++ [b] ≠ [percent] := by
      intro heq
      simp [heq] at hopen
    cases hlineOf : f.lineOf (f.pending ++ [b]) b with
    | none =>
      exact ⟨⟨hctl, hresp, .inl ⟨hline, rfl, word_of_open (.inr (lineOf_none hresp hlineOf))⟩⟩, rfl⟩
    | some line =>
      obtain ⟨after, rfl, hdec⟩ := decided_lineOf hresp hword hpct hlineOf
      have hnext := inLine_endByte hctl hresp hb hdec
      refine ⟨hnext, ?_⟩
      dsimp only
      rw [endByte_of_ne _ hb, append_nil]
  · have hstep : f.step b = ([b], f.endByte b) := by simp [step, passing, hctl, hline, hresp]
    rw [hstep, hpend, endByte_of_ne f hb]
    refine ⟨⟨hctl, hresp, .inr ⟨after, hline, hpend, hdec.append [b]⟩⟩, ?_⟩
    rw [hpend, append_nil, nil_append]

theorem steps_inLine (h : f.InLine p) {q : Bytes} (hq : newline ∉ q) :
    (f.steps q).2.InLine (p ++ q) ∧ (f.steps q).1 ++ (f.steps q).2.pending = f.pending ++ q := by
  induction q generalizing f p with
  | nil => exact ⟨by rwa [append_nil], (append_nil _).symm⟩
  | cons b q ih =>
    have hb : b ≠ newline := fun heq => hq (heq ▸ mem_cons_self)
    obtain ⟨hline, hout⟩ := step_inLine h hb
    obtain ⟨hlast, houts⟩ := ih hline fun hmem => hq (mem_cons_of_mem _ hmem)
    rw [steps_cons]
    refine ⟨by rwa [append_assoc] at hlast, ?_⟩
    rw [append_assoc, houts, ← append_assoc, hout, append_assoc, singleton_append]

/-- The end of a line of a response does what its first word says. -/
theorem step_newline (h : f.InLine p) :
    f.step newline = (f.pending ++ [newline],
      endByte { f with line := .pass (afterToken (firstWord p)), pending := [] } newline) := by
  obtain ⟨hctl, hresp, ⟨hline, rfl, hword⟩ | ⟨after, hline, hpend, hdec⟩⟩ := h
  · have hbl : isWordByte newline = false := by decide
    have hopen : ¬ ((f.pending ++ [newline]).isPrefixOf tmuxSt || f.pending ++ [newline] == [percent]) = true := by
      intro hopen
      have hnl := word_of_open (.inl hopen) newline (by simp)
      exact absurd (hnl.symm.trans hbl) (by decide)
    have hpct : f.pending ++ [newline] ≠ [percent] := by
      intro heq
      simp [heq] at hopen
    rw [step, if_neg (by simp [hctl]), hline]
    rw [atPrefix, if_neg (by simp [hresp]), if_neg hopen]
    cases hlineOf : f.lineOf (f.pending ++ [newline]) newline with
    | none =>
      have hnl := word_of_open (.inr (lineOf_none hresp hlineOf)) newline (by simp)
      exact absurd (hnl.symm.trans hbl) (by decide)
    | some line =>
      obtain ⟨after, rfl, hdec⟩ := decided_lineOf hresp hword hpct hlineOf
      have haft := hdec []
      rw [append_nil, firstWord_blank hword hbl] at haft
      have hfst : firstWord f.pending = f.pending := by
        have hnil := firstWord_append_of_word hword []
        rwa [append_nil, show firstWord [] = [] from rfl, append_nil] at hnil
      rw [hfst, haft]
  · have haft := hdec []
    rw [append_nil] at haft
    rw [haft, hpend]
    have hsame : { f with line := .pass after, pending := [] } = f := by
      rw [← hline, ← hpend]
    rw [hsame]
    simp [step, passing, hctl, hline, hresp]

/-! ### Runs over pieces of the input -/

/-- Every state of the loop before the last byte. -/
def On (P : TmuxCcFilter → Prop) (f : TmuxCcFilter) (bytes : Bytes) : Prop :=
  ∀ n < bytes.length, P (f.steps (bytes.take n)).2

theorem On.mono {P Q : TmuxCcFilter → Prop} {bytes : Bytes} (h : On P f bytes)
    (himp : ∀ g, P g → Q g) : On Q f bytes := fun n hn => himp _ (h n hn)

theorem On.append {P : TmuxCcFilter → Prop} {a b : Bytes} (ha : On P f a)
    (hb : On P (f.steps a).2 b) : On P f (a ++ b) := by
  intro n hn
  by_cases hna : n < a.length
  · rw [take_append_of_le_length hna.le]
    exact ha n hna
  obtain ⟨k, rfl⟩ : ∃ k, n = a.length + k := ⟨n - a.length, by omega⟩
  rw [take_length_add_append, steps_append]
  rw [length_append] at hn
  exact hb k (by omega)

/-- A chunk may start here like any other bytes. -/
def Steady (f : TmuxCcFilter) : Prop := f.response = true ∨ f.line ≠ .drop

theorem Steady.atChunk (h : f.Steady) (chunk : Bytes) : f.atChunk chunk = f := by
  rw [TmuxCcFilter.atChunk, if_neg]
  intro hdrop
  simp only [Bool.and_eq_true, Bool.not_eq_true', beq_iff_eq] at hdrop
  rcases h with h | h
  · exact absurd (h.symm.trans hdrop.1.1.2) (by decide)
  · exact h hdrop.1.2

/-- **The chunks do not matter** where the filter is steady. -/
theorem applyAll_cutChunks {chunks : List Bytes} {n : Nat} (h : On Steady f (chunks.flatten.take n)) :
    f.applyAll (cutChunks n chunks) = f.steps (chunks.flatten.take n) := by
  induction chunks generalizing f n with
  | nil =>
    rw [flatten_nil, take_nil]
    rfl
  | cons chunk chunks ih =>
    have hfst : ∀ front rest, front ++ rest = (chunk :: chunks).flatten.take n → f.apply front = f.steps front := by
      intro front rest hfro
      rw [apply_eq_steps]
      cases front with
      | nil => rw [show f.atChunk [] = f by simp [TmuxCcFilter.atChunk]]
      | cons b front =>
        have hst : f.Steady := h 0 (by rw [← hfro]; simp)
        rw [hst.atChunk]
    rw [flatten_cons] at h hfst ⊢
    unfold cutChunks
    split
    next hle =>
      rw [take_append_of_le_length hle]
      have hap := hfst (chunk.take n) [] (by rw [append_nil, take_append_of_le_length hle])
      simp only [applyAll, append_nil, hap]
    rename_i hlt
    obtain ⟨k, rfl⟩ : ∃ k, n = chunk.length + k := ⟨n - chunk.length, by omega⟩
    rw [take_length_add_append] at h hfst ⊢
    have hap := hfst chunk (chunks.flatten.take k) rfl
    have hrest : On Steady (f.steps chunk).2 (chunks.flatten.take k) := by
      intro m hm
      have hst := h (chunk.length + m) (by rw [length_append]; omega)
      rwa [take_length_add_append, steps_append] at hst
    rw [Nat.add_sub_cancel_left, steps_append]
    simp only [applyAll, hap, ih hrest]

/-- What the first bytes gave stays in front of what the rest gives. -/
theorem prefix_applyAll (f : TmuxCcFilter) (n : Nat) (chunks : List Bytes) :
    (f.applyAll (cutChunks n chunks)).1 <+: (f.applyAll chunks).1 := by
  induction chunks generalizing f n with
  | nil => exact prefix_rfl
  | cons chunk chunks ih =>
    unfold cutChunks
    split
    · simp only [applyAll, append_nil]
      refine List.IsPrefix.trans ?_ (prefix_append _ _)
      by_cases hnil : chunk.take n = []
      · rw [hnil, apply_eq_steps, steps_nil]
        exact List.nil_prefix
      have hap := apply_append f (chunk.drop n) hnil
      rw [take_append_drop] at hap
      rw [hap]
      exact prefix_append _ _
    · exact (prefix_append_right_inj _).mpr (ih _ _)

/-! ### The lines of a response -/

/-- In control mode and in a response, between two lines. -/
structure BetweenLines (f : TmuxCcFilter) : Prop where
  control : f.control = true
  response : f.response = true
  line : f.line = .linePrefix
  pending : f.pending = []

theorem BetweenLines.inLine (h : f.BetweenLines) : f.InLine [] :=
  { h with reading := .inl ⟨h.line, h.pending, nofun⟩ }

/-- In control mode and in a response. -/
def Open (f : TmuxCcFilter) : Prop := f.control = true ∧ f.response = true

/-- Until its newline a line changes nothing, and it passes whole. -/
theorem steps_line (h : f.BetweenLines) (hline : newline ∉ line) :
    On Open f (withNewline line) ∧ ∃ g : TmuxCcFilter, g.Open ∧ f.steps (withNewline line) =
      (withNewline line, endByte { g with line := .pass (afterToken (firstWord line)), pending := [] } newline) := by
  constructor
  · intro n hn
    rw [withNewline, length_append, length_singleton] at hn
    rw [withNewline, take_append_of_le_length (by omega)]
    have hfro : newline ∉ line.take n := fun hmem => hline (mem_of_mem_take hmem)
    have hin := (steps_inLine h.inLine hfro).1
    exact ⟨hin.control, hin.response⟩
  · obtain ⟨hin, hout⟩ := steps_inLine h.inLine hline
    rw [h.pending, nil_append] at hout
    refine ⟨(f.steps line).2, ⟨hin.control, hin.response⟩, ?_⟩
    rw [withNewline, steps_append, steps_cons, step_newline hin, steps_nil, append_nil, nil_append,
      ← append_assoc, hout]

theorem betweenLines_endByte {g : TmuxCcFilter} (hg : g.Open) (h : InertLine line) :
    BetweenLines (endByte { g with line := .pass (afterToken (firstWord line)), pending := [] } newline) := by
  obtain ⟨hend, herr, hexit⟩ := h
  rw [afterToken, if_neg (not_or.mpr ⟨hend, herr⟩), if_neg hexit]
  split
  · exact ⟨hg.1, rfl, rfl, rfl⟩
  · exact ⟨hg.1, hg.2, rfl, rfl⟩

/-- A line that is not inert ends the response, or control mode. -/
theorem not_open_endByte {g : TmuxCcFilter} (h : ¬ InertLine line) :
    ¬ Open (endByte { g with line := .pass (afterToken (firstWord line)), pending := [] } newline) := by
  have hcas : firstWord line = endToken ∨ firstWord line = errorToken ∨ firstWord line = exitToken := by
    by_contra hnone
    rw [not_or, not_or] at hnone
    exact h hnone
  have hend : afterToken endToken = .ends := by decide +kernel
  have herr : afterToken errorToken = .ends := by decide +kernel
  have hexit : afterToken exitToken = .exits := by decide +kernel
  intro hopen
  rcases hcas with hword | hword | hword
  · rw [hword, hend] at hopen
    exact absurd hopen.2 (by simp [endByte])
  · rw [hword, herr] at hopen
    exact absurd hopen.2 (by simp [endByte])
  · rw [hword, hexit] at hopen
    exact absurd hopen.1 (by simp [endByte, leaveControl, default])

theorem steps_lines (h : f.BetweenLines) {lines : List Bytes}
    (hlin : ∀ line ∈ lines, newline ∉ line) (hinert : ∀ line ∈ lines, InertLine line) :
    On Open f (lines.flatMap withNewline) ∧ (f.steps (lines.flatMap withNewline)).1 = lines.flatMap withNewline ∧
      (f.steps (lines.flatMap withNewline)).2.BetweenLines := by
  induction lines generalizing f with
  | nil => exact ⟨nofun, rfl, h⟩
  | cons line lines ih =>
    obtain ⟨hline, hlin⟩ := forall_mem_cons.mp hlin
    obtain ⟨hinert, hinerts⟩ := forall_mem_cons.mp hinert
    obtain ⟨hon, g, hg, hstp⟩ := steps_line h hline
    obtain ⟨hons, hout, hbtw⟩ := ih (betweenLines_endByte hg hinert) hlin hinerts
    rw [flatMap_cons, steps_append, hstp]
    exact ⟨hon.append (by rwa [hstp]), by rw [hout], hbtw⟩

/-! ### The first line -/

/-- In control mode, outside a response, at the start of a line. -/
structure AtLine (f : TmuxCcFilter) : Prop where
  control : f.control = true
  response : f.response = false
  line : f.line = .linePrefix
  pending : f.pending = []

/-- In control mode, outside a response, in a `%begin` line. -/
structure Beginning (f : TmuxCcFilter) : Prop where
  control : f.control = true
  response : f.response = false
  line : f.line = .pass .begins
  pending : f.pending = []

/-- In control mode, and not in a line that is dropped. -/
def Watching (f : TmuxCcFilter) : Prop := f.control = true ∧ f.line ≠ .drop

instance (f : TmuxCcFilter) : Decidable f.Watching := inferInstanceAs (Decidable (_ ∧ _))

theorem steps_token (h : f.AtLine) :
    On Watching f (beginToken ++ [0x20]) ∧ (f.steps (beginToken ++ [0x20])).1 = beginToken ++ [0x20] ∧
      (f.steps (beginToken ++ [0x20])).2.Beginning ∧ (f.steps (beginToken ++ [0x20])).2.escape = false := by
  obtain ⟨control, response, introducerLine, lineStart, line, escape, pending⟩ := f
  obtain ⟨rfl, rfl, rfl, rfl⟩ : control = true ∧ response = false ∧ line = .linePrefix ∧ pending = [] :=
    ⟨h.control, h.response, h.line, h.pending⟩
  have hstp : ∀ introducerLine lineStart escape,
      (∀ n < 7, Watching (steps ⟨true, false, introducerLine, lineStart, .linePrefix, escape, []⟩
        ((beginToken ++ [0x20]).take n)).2) ∧
      steps ⟨true, false, introducerLine, lineStart, .linePrefix, escape, []⟩ (beginToken ++ [0x20]) =
        (beginToken ++ [0x20], ⟨true, false, introducerLine, lineStart, .pass .begins, false, []⟩) := by
    decide +kernel
  obtain ⟨hon, heq⟩ := hstp introducerLine lineStart escape
  rw [heq]
  exact ⟨hon, rfl, ⟨rfl, rfl, rfl, rfl⟩, rfl⟩

/-- Whether a terminator ends among these bytes, after an escape or not. -/
def terminates : Bool → Bytes → Bool
  | _, [] => false
  | escape, b :: rest => (escape && b == backslash) || terminates (b == EternalTerminal.escape) rest

theorem terminates_iff (escape : Bool) (bytes : Bytes) :
    terminates escape bytes = true ↔
      tmuxSt <:+: (if escape then [EternalTerminal.escape] else []) ++ bytes := by
  induction bytes generalizing escape with
  | nil => cases escape <;> decide
  | cons b rest ih =>
    rw [terminates, Bool.or_eq_true, ih, Bool.and_eq_true, beq_iff_eq]
    -- the terminator ends with `b`, or lies in `b` and the rest
    have hrest : tmuxSt <:+: (if b == EternalTerminal.escape then [EternalTerminal.escape] else []) ++ rest ↔
        tmuxSt <:+: b :: rest := by
      by_cases hb : b = EternalTerminal.escape
      · simp [hb]
      · rw [if_neg (by simpa using hb), nil_append, infix_cons_iff]
        refine ⟨.inr, fun h => h.resolve_left fun hsts => hb ?_⟩
        exact (cons_prefix_cons.mp hsts).1.symm
    rw [hrest]
    cases escape with
    | false => simp
    | true =>
      have hfro : tmuxSt <+: EternalTerminal.escape :: b :: rest ↔ b = backslash := by
        simp [tmuxSt, cons_prefix_cons, eq_comm]
      rw [if_pos rfl, singleton_append, infix_cons_iff (a := EternalTerminal.escape), hfro]
      simp only [true_and]

theorem step_beginning (h : f.Beginning) (hb : b ≠ newline) (hst : (f.escape && b == backslash) = false) :
    f.step b = ([b], { f with escape := b == EternalTerminal.escape }) := by
  have hstep : f.step b = f.passing b := by simp [step, h.control, h.line]
  rw [hstep, passing, if_neg (by rw [h.response, Bool.not_false, Bool.true_and, hst]; decide), endByte_of_ne f hb]

theorem Beginning.watching (h : f.Beginning) (b : UInt8) : On Watching f [b] := by
  intro n hn
  obtain rfl : n = 0 := by simpa using hn
  exact ⟨h.control, by simp [h.line]⟩

/-- The arguments of the line pass, or a terminator among them ends control mode. -/
theorem steps_args (h : f.Beginning) {args : Bytes} (hargs : newline ∉ args) :
    (terminates f.escape args = false ∧ On Watching f args ∧ (f.steps args).1 = args ∧ (f.steps args).2.Beginning) ∨
      (terminates f.escape args = true ∧
        ∃ n ≤ args.length, On Watching f (args.take n) ∧ (f.steps (args.take n)).2.control = false) := by
  induction args generalizing f with
  | nil => exact .inl ⟨rfl, nofun, rfl, h⟩
  | cons b args ih =>
    have hb : b ≠ newline := fun heq => hargs (heq ▸ mem_cons_self)
    have hone := h.watching b
    rw [terminates]
    cases hhere : f.escape && b == backslash with
    | true =>
      refine .inr ⟨rfl, 1, by simp, hone, ?_⟩
      have hstep : f.step b = ([b], f.leaveControl) := by
        rw [step, if_neg (by simp [h.control]), h.line]
        rw [passing, if_pos (by rw [h.response, Bool.not_false, Bool.true_and, hhere])]
      rw [take_succ_cons, take_zero, steps_cons, hstep]
      rfl
    | false =>
      have hstep := step_beginning h hb hhere
      have hstp : f.steps [b] = ([b], { f with escape := b == EternalTerminal.escape }) := by
        rw [steps_cons, hstep]
        rfl
      have hnext : Beginning { f with escape := b == EternalTerminal.escape } :=
        ⟨h.control, h.response, h.line, h.pending⟩
      rcases ih hnext fun hmem => hargs (mem_cons_of_mem _ hmem) with
        ⟨hlater, hon, hout, hlast⟩ | ⟨hlater, n, hn, hon, hctl⟩
      · refine .inl ⟨hlater, hone.append (b := args) (by rwa [hstp]), ?_, ?_⟩
        · rw [steps_cons, hstep, hout]
          rfl
        · rw [steps_cons, hstep]
          exact hlast
      · refine .inr ⟨hlater, n + 1, by simpa using hn, ?_, ?_⟩
        · exact hone.append (b := args.take n) (by rwa [hstp])
        · rw [take_succ_cons, steps_cons, hstep]
          exact hctl

theorem steps_begin_newline (h : f.Beginning) :
    f.steps [newline] = ([newline], endByte f newline) ∧ BetweenLines (endByte f newline) := by
  have hstep : f.step newline = f.passing newline := by simp [step, h.control, h.line]
  have hpassing : f.passing newline = ([newline], f.endByte newline) := by
    rw [passing, if_neg]
    simp [newline, backslash]
  refine ⟨by rw [steps_cons, hstep, hpassing]; rfl, ?_⟩
  rw [endByte, if_pos rfl, h.line]
  exact ⟨h.control, rfl, rfl, h.pending⟩

end TmuxCcFilter

open TmuxCcFilter

namespace TmuxResponse
variable {f : TmuxCcFilter} (r : TmuxResponse)

theorem opening_eq : r.opening = (beginToken ++ [0x20]) ++ (r.args ++ [newline]) := by
  simp [opening, withNewline, tokenLine]

theorem steps_opening (hf : f.AtLine) (hst : ¬ tmuxSt <:+: r.args) :
    On Watching f r.opening ∧ (f.steps r.opening).1 = r.opening ∧ (f.steps r.opening).2.BetweenLines := by
  obtain ⟨hon, hout, hbeg, hesc⟩ := steps_token hf
  obtain ⟨-, hon', hout', hbeg'⟩ := (steps_args hbeg r.args_line).resolve_right fun hends =>
    hst (by simpa [hesc, terminates_iff] using hends.1)
  obtain ⟨hnl, hbtw⟩ := steps_begin_newline hbeg'
  rw [opening_eq]
  refine ⟨hon.append (hon'.append (hbeg'.watching newline)), ?_, ?_⟩
  · rw [steps_append f (beginToken ++ [0x20]), steps_append _ r.args, hout, hout', hnl]
  · rw [steps_append f (beginToken ++ [0x20]), steps_append _ r.args, hnl]
    exact hbtw

/-- A terminator among the arguments ends control mode in the first line. -/
theorem opening_terminated (hf : f.AtLine) (hst : tmuxSt <:+: r.args) :
    ∃ front, front <+: r.opening ∧ On Watching f front ∧ (f.steps front).2.control = false := by
  obtain ⟨hon, hout, hbeg, hesc⟩ := steps_token hf
  have hends : terminates (f.steps (beginToken ++ [0x20])).2.escape r.args = true := by
    rw [hesc, terminates_iff]
    exact hst
  obtain ⟨-, n, hn, hon', hctl⟩ := (steps_args hbeg r.args_line).resolve_left fun hpass =>
    absurd (hends.symm.trans hpass.1) (by decide)
  refine ⟨(beginToken ++ [0x20]) ++ r.args.take n, ?_, hon.append hon', ?_⟩
  · rw [opening_eq, prefix_append_right_inj]
    exact (List.take_prefix n r.args).trans (prefix_append _ _)
  · exact hctl

theorem closing_token (failed : Bool) :
    newline ∉ (if failed then errorToken else endToken) ∧
      (∀ b ∈ if failed then errorToken else endToken, isWordByte b = true) ∧
      afterToken (if failed then errorToken else endToken) = .ends := by
  cases failed <;> decide +kernel

theorem closing_line (hf : f.BetweenLines) :
    On Open f r.closing ∧ (f.steps r.closing).1 = r.closing ∧ (f.steps r.closing).2.control = true ∧
      (f.steps r.closing).2.response = false := by
  have htok := closing_token r.failed
  rw [closing]
  generalize (if r.failed then errorToken else endToken) = token at htok ⊢
  have hline : newline ∉ tokenLine token r.args := by
    simp only [tokenLine, mem_append, mem_cons, not_or]
    exact ⟨htok.1, by decide, r.args_line⟩
  obtain ⟨hon, g, hg, hstp⟩ := steps_line hf hline
  have hword : firstWord (tokenLine token r.args) = token := firstWord_blank htok.2.1 (by decide) _
  rw [hword, htok.2.2] at hstp
  rw [hstp]
  exact ⟨hon, rfl, hg.1, rfl⟩

theorem steady_of_watching {g : TmuxCcFilter} (h : g.Watching) : g.Steady := .inr h.2

theorem steady_of_open {g : TmuxCcFilter} (h : g.Open) : g.Steady := .inl h.2

/-- The first line and some of the next ones. -/
theorem steps_front (hf : f.AtLine) (hst : ¬ tmuxSt <:+: r.args) {lines : List Bytes} (hlin : lines <+: r.body)
    (hinert : ∀ line ∈ lines, InertLine line) :
    On Steady f (r.opening ++ lines.flatMap withNewline) ∧
      On (fun g => g.control = true) f (r.opening ++ lines.flatMap withNewline) ∧
      (f.steps (r.opening ++ lines.flatMap withNewline)).1 = r.opening ++ lines.flatMap withNewline ∧
      On Open (f.steps r.opening).2 (lines.flatMap withNewline) ∧
      (f.steps (r.opening ++ lines.flatMap withNewline)).2.BetweenLines := by
  obtain ⟨hon, hout, hbtw⟩ := r.steps_opening hf hst
  have hline : ∀ line ∈ lines, newline ∉ line := fun line hline => r.body_lines line (hlin.subset hline)
  obtain ⟨hon', hout', hbtw'⟩ := steps_lines hbtw hline hinert
  refine ⟨(hon.mono fun _ => steady_of_watching).append (hon'.mono fun _ => steady_of_open),
    (hon.mono fun _ h => h.1).append (hon'.mono fun _ h => h.1), ?_, hon', ?_⟩
  · rw [steps_append, hout, hout']
  · rw [steps_append]
    exact hbtw'

end TmuxResponse

/-- The state after a front of the input that is steady. -/
theorem applyAll_front {f : TmuxCcFilter} {chunks : List Bytes} {front : Bytes} (more : Bytes)
    (hchk : chunks.flatten = front ++ more) (h : On Steady f front) :
    f.applyAll (cutChunks front.length chunks) = f.steps front := by
  have htake : chunks.flatten.take front.length = front := by rw [hchk, take_left]
  rw [applyAll_cutChunks (by rwa [htake]), htake]

theorem TmuxCcFilter.On.take {P : TmuxCcFilter → Prop} {f : TmuxCcFilter} {bytes : Bytes} (h : On P f bytes) (n : Nat) :
    On P f (bytes.take n) := by
  intro m hm
  rw [length_take] at hm
  rw [take_take, Nat.min_eq_left (by omega)]
  exact h m (by omega)

namespace KeptWhole
variable {f : TmuxCcFilter} {r : TmuxResponse} {chunks : List Bytes} {rest : Bytes}
variable (hf : f.AtLine) (hchk : chunks.flatten = r.bytes ++ rest)
include hf hchk

theorem of_undisturbed (h : r.Undisturbed) : KeptWhole f r chunks := by
  obtain ⟨hst, hctl, hout, hopen, hbtw⟩ := r.steps_front hf h.1 prefix_rfl h.2
  obtain ⟨hopen', hout', hctl', hresp'⟩ := r.closing_line hbtw
  have hon : On Steady f r.bytes := hst.append (hopen'.mono fun _ => TmuxResponse.steady_of_open)
  have hons : On (fun g => g.control = true) f r.bytes := hctl.append (hopen'.mono fun _ h => h.1)
  have hstp : f.steps r.bytes = (r.bytes, (f.steps r.bytes).2) := by
    rw [TmuxResponse.bytes, steps_append, hout, hout']
  have hlast : (f.steps r.bytes).2.control = true ∧ (f.steps r.bytes).2.response = false := by
    rw [TmuxResponse.bytes, steps_append]
    exact ⟨hctl', hresp'⟩
  have hstate : ∀ n ≤ r.bytes.length, filterAfter f chunks n = (f.steps (r.bytes.take n)).2 := by
    intro n hn
    have hfro : chunks.flatten = r.bytes.take n ++ (r.bytes.drop n ++ rest) := by
      rw [hchk, ← append_assoc, take_append_drop]
    have hap := applyAll_front _ hfro (hon.take n)
    rw [length_take, Nat.min_eq_left hn] at hap
    rw [filterAfter, hap]
  have houtput : (f.applyAll (cutChunks r.bytes.length chunks)).1 = r.bytes := by
    rw [applyAll_front _ hchk hon, hstp]
  refine ⟨houtput, ?_, ?_, ?_, ?_⟩
  · rw [← houtput]
    exact prefix_applyAll f _ chunks
  · intro n hn
    rw [hstate n hn]
    rcases Nat.lt_or_eq_of_le hn with hlt | rfl
    · exact hons n hlt
    · rw [take_length]
      exact hlast.1
  · intro n hopening hn
    rw [hstate n hn.le]
    obtain ⟨k, rfl⟩ : ∃ k, n = r.opening.length + k := ⟨n - r.opening.length, by omega⟩
    have hbs : r.bytes = r.opening ++ (r.body.flatMap withNewline ++ r.closing) := by
      rw [TmuxResponse.bytes, append_assoc]
    have hbody : On Open (f.steps r.opening).2 (r.body.flatMap withNewline ++ r.closing) := by
      refine hopen.append ?_
      rw [steps_append] at hopen'
      exact hopen'
    rw [hbs, length_append] at hn
    rw [hbs, take_length_add_append, steps_append]
    exact (hbody k (by omega)).2
  · rw [hstate _ le_rfl, take_length]
    exact hlast.2

/-- The lines between are inert, one after the other. -/
theorem inert (h : KeptWhole f r chunks) (hst : ¬ tmuxSt <:+: r.args) (front back : List Bytes)
    (hbody : r.body = front ++ back) (hfro : ∀ line ∈ front, InertLine line) : ∀ line ∈ back, InertLine line := by
  induction back generalizing front with
  | nil => nofun
  | cons line back ih =>
    have hinert : InertLine line := by
      by_contra hnot
      obtain ⟨hsteady, -, -, -, hbtw⟩ := r.steps_front hf hst ⟨line :: back, hbody.symm⟩ hfro
      have hline : newline ∉ line := r.body_lines line (by rw [hbody]; simp)
      obtain ⟨hon, g, hg, hstp⟩ := steps_line hbtw hline
      have hon' : On Steady f (r.opening ++ front.flatMap withNewline ++ withNewline line) :=
        hsteady.append (hon.mono fun _ => TmuxResponse.steady_of_open)
      have hbs : r.bytes = (r.opening ++ front.flatMap withNewline ++ withNewline line) ++
          (back.flatMap withNewline ++ r.closing) := by
        simp [TmuxResponse.bytes, hbody]
      have hap := applyAll_front (back.flatMap withNewline ++ r.closing ++ rest)
        (by rw [hchk, hbs, append_assoc]) hon'
      rw [steps_append, hstp] at hap
      have hlen : (r.opening ++ front.flatMap withNewline ++ withNewline line).length < r.bytes.length := by
        have hcl : 0 < r.closing.length := by simp [TmuxResponse.closing, withNewline]
        have htot := congrArg List.length hbs
        simp only [length_append] at htot ⊢
        omega
      have hresp := h.response _ (by rw [append_assoc, length_append]; omega) hlen
      have hctl := h.control _ hlen.le
      rw [filterAfter, hap] at hresp hctl
      exact not_open_endByte hnot ⟨hctl, hresp⟩
    refine forall_mem_cons.mpr ⟨hinert, ih (front ++ [line]) (by rw [hbody]; simp) ?_⟩
    exact forall_mem_append.mpr ⟨hfro, forall_mem_singleton.mpr hinert⟩

theorem undisturbed (h : KeptWhole f r chunks) : r.Undisturbed := by
  have hst : ¬ tmuxSt <:+: r.args := by
    intro hst
    obtain ⟨front, ⟨more, hmore⟩, hon, hctl⟩ := r.opening_terminated hf hst
    have hbs : r.bytes = front ++ (more ++ (r.body.flatMap withNewline ++ r.closing)) := by
      rw [TmuxResponse.bytes, ← hmore]
      simp
    have hap := applyAll_front (more ++ (r.body.flatMap withNewline ++ r.closing) ++ rest)
      (by rw [hchk, hbs, append_assoc]) (hon.mono fun _ => TmuxResponse.steady_of_watching)
    have hkept := h.control front.length (by rw [hbs, length_append]; omega)
    rw [filterAfter, hap, hctl] at hkept
    cases hkept
  exact ⟨hst, inert hf hchk h hst [] r.body rfl nofun⟩

end KeptWhole

/-- **A response and the filter.**  In control mode, at the start of a line outside a response, in any chunks: a
response passes unchanged, with control mode on at every byte and the response open from its first line to its last,
just when no line between starts with the word `%end`, `%error` or `%exit` and its arguments hold no string
terminator. -/
theorem response_kept_whole_iff {f : TmuxCcFilter} (hf : f.AtLine) (r : TmuxResponse) (rest : Bytes)
    (chunks : List Bytes) (hchunks : chunks.flatten = r.bytes ++ rest) :
    KeptWhole f r chunks ↔ r.Undisturbed :=
  ⟨KeptWhole.undisturbed hf hchunks, KeptWhole.of_undisturbed hf hchunks⟩

/-- The filter after the string with which tmux opens control mode. -/
def controlFilter : TmuxCcFilter := (TmuxCcFilter.default.apply tmuxDcs).2

theorem controlFilter_atLine : controlFilter.AtLine :=
  ⟨by decide +kernel, by decide +kernel, by decide +kernel, by decide +kernel⟩

/-- A response with a terminator, a look-alike and a notification between its first line and its last. -/
def opaqueResponse : TmuxResponse where
  args := ascii "1 2 3"
  body := [tmuxSt ++ ascii "text", ascii "%endless", ascii "%begin 4"]
  failed := true
  args_line := by decide +kernel
  body_lines := by decide +kernel
  first := by decide +kernel

theorem response_kept_whole_iff_opaque :
    KeptWhole controlFilter opaqueResponse [opaqueResponse.bytes.take 20, opaqueResponse.bytes.drop 20 ++ ascii "wall"] ∧
      opaqueResponse.Undisturbed := by
  have hkept := response_kept_whole_iff controlFilter_atLine opaqueResponse (ascii "wall")
    [opaqueResponse.bytes.take 20, opaqueResponse.bytes.drop 20 ++ ascii "wall"] (by decide +kernel)
  have hundisturbed : opaqueResponse.Undisturbed := by
    unfold TmuxResponse.Undisturbed InertLine
    decide +kernel
  exact ⟨hkept.mpr hundisturbed, hundisturbed⟩

/-- A response whose text has a line that starts with `%end`. -/
def textResponse : TmuxResponse where
  args := ascii "1 2 3"
  body := [ascii "%end of part one", ascii "part two"]
  failed := false
  args_line := by decide +kernel
  body_lines := by decide +kernel
  first := by decide +kernel

/-- A response whose text has the line `%exit`. -/
def exitResponse : TmuxResponse where
  args := ascii "1 2 3"
  body := [exitToken]
  failed := false
  args_line := by decide +kernel
  body_lines := by decide +kernel
  first := by decide +kernel

/-- The rest of the text is dropped after the one, and control mode is off after the other. -/
theorem response_cut_by_its_text :
    (controlFilter.applyAll [textResponse.bytes]).1 =
        textResponse.opening ++ withNewline (ascii "%end of part one") ++ textResponse.closing ∧
      ¬ KeptWhole controlFilter textResponse [textResponse.bytes] ∧
      (controlFilter.applyAll [exitResponse.bytes]).2.control = false ∧
      ¬ KeptWhole controlFilter exitResponse [exitResponse.bytes] := by
  refine ⟨by decide +kernel, fun h => absurd h.output (by decide +kernel), by decide +kernel, fun h => ?_⟩
  exact absurd (h.control _ le_rfl) (by decide +kernel)

end EternalTerminal
