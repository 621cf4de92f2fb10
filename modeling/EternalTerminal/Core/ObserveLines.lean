import EternalTerminal.Core.OutputInterrupt
import Mathlib.Data.List.TakeWhile

/-!
# Core — observing terminal output byte by byte

`observe` takes shortcuts over plain output: it skips to the last newline, or to the next one once the
first token of a line can no longer matter.  Here they are shown to change nothing: up to `settle`, which
forgets whether a first token of full length has ended, observing is a fold over the bytes
(`settle_observe`), so it does not matter how the output is cut.

`Sound` is what holds of every stream reached by observing.  At the start of a line all that is left of a
stream is its mode (`lineStart`), and a line that ends in its newline leads there (`observe_line`).
-/

namespace EternalTerminal
open List
variable {token : Bytes}

/-! ### Control tokens -/

theorem tmuxControlTokens_shape :
    ∀ token ∈ tmuxControlTokens, token.length < 25 ∧ token.head? = some percent ∧
      (token[1]?).any isAsciiLowercase = true ∧ token.all (fun b => b != escape) = true ∧
      (token.drop 1).all (fun b => b != percent) = true := by
  decide +kernel

theorem mem_of_isTmuxControlToken (h : isTmuxControlToken token = true) :
    stripDcs token ∈ tmuxControlTokens := by
  simpa [isTmuxControlToken] using h

theorem stripDcs_of_not (h : ¬ tmuxDcs <+: token) : stripDcs token = token := by
  rw [stripDcs, if_neg (by rwa [List.isPrefixOf_iff_prefix])]

/-- Without an introducer in front of it, a token arms control mode only if it is a control token. -/
theorem mem_of_arms (hdcs : ¬ tmuxDcs <+: token) (h : armsControlMode token = true) :
    token ∈ tmuxControlTokens := by
  have hmem := mem_of_isTmuxControlToken (Bool.and_eq_true_iff.mp h).2
  rwa [stripDcs_of_not hdcs, stripDcs_of_not hdcs] at hmem

theorem not_arms_of_long (hdcs : ¬ tmuxDcs <+: token) (h : 32 ≤ token.length) :
    armsControlMode token = false := by
  refine Bool.eq_false_iff.mpr fun harms => ?_
  have hlen := (tmuxControlTokens_shape token (mem_of_arms hdcs harms)).1
  omega

/-- The tokens of response blocks arm control mode. -/
theorem arms_of_block (h : token = ascii "%begin" ∨ token = ascii "%end" ∨ token = ascii "%error") :
    armsControlMode token = true := by
  rcases h with rfl | rfl | rfl <;> decide +kernel

namespace TerminalStream
variable {s : TerminalStream}

/-! ### The streams that are reached -/

/-- At the start of a line only the mode is left. -/
def lineStart (control block : Bool) : TerminalStream := ⟨[], false, false, control, block, false⟩

/-- What holds of every stream reached by observing. -/
structure Sound (s : TerminalStream) : Prop where
  block : s.block = true → s.control = true
  start : s.midline = false → s.token = [] ∧ s.tokenDone = false ∧ s.escape = false
  begun : s.midline = true → s.token ≠ [] ∨ s.tokenDone = true
  noDcs : ¬ tmuxDcs <+: s.token
  plain : s.control = false → s.tokenDone = true → armsControlMode s.token = false

/-- A first token of full length is as good as done. -/
def settle (s : TerminalStream) : TerminalStream :=
  if 32 ≤ s.token.length then { s with tokenDone := true } else s

/-- The bytes one by one. -/
def feed (s : TerminalStream) (bytes : Bytes) : TerminalStream :=
  bytes.foldl (fun s byte => (s.observeByte byte).settle) s

@[simp] theorem feed_nil (s : TerminalStream) : s.feed [] = s := rfl

@[simp] theorem feed_cons (s : TerminalStream) (byte : UInt8) (bytes : Bytes) :
    s.feed (byte :: bytes) = (s.observeByte byte).settle.feed bytes := rfl

theorem feed_append (s : TerminalStream) (bytes₁ bytes₂ : Bytes) :
    s.feed (bytes₁ ++ bytes₂) = (s.feed bytes₁).feed bytes₂ :=
  foldl_append

theorem settle_of_lt (h : s.token.length < 32) : s.settle = s :=
  if_neg (Nat.not_le.mpr h)

theorem settle_of_le (h : 32 ≤ s.token.length) :
    s.settle = { s with tokenDone := true } :=
  if_pos h

@[simp] theorem settle_lineStart (control block : Bool) : (lineStart control block).settle = lineStart control block :=
  rfl

theorem settle_fields (s : TerminalStream) : s.settle.token = s.token ∧ s.settle.midline = s.midline ∧
    s.settle.control = s.control ∧ s.settle.block = s.block ∧ s.settle.escape = s.escape := by
  unfold settle
  split <;> exact ⟨rfl, rfl, rfl, rfl, rfl⟩

theorem tokenDone_settle (s : TerminalStream) :
    s.settle.tokenDone = (s.tokenDone || decide (32 ≤ s.token.length)) := by
  unfold settle
  split
  next h =>
    simp [h]
  next h =>
    simp [h]

theorem eq_lineStart_of_settle {control block : Bool} (h : s.settle = lineStart control block) :
    s = lineStart control block := by
  have htok : s.token = [] := by rw [← s.settle_fields.1, h]; rfl
  rwa [settle_of_lt (by rw [htok]; decide)] at h

namespace Sound
variable {s : TerminalStream}

theorem lineStart {control block : Bool} (h : block = true → control = true) :
    Sound (TerminalStream.lineStart control block) :=
  ⟨h, fun _ => ⟨rfl, rfl, rfl⟩, nofun, show ¬ tmuxDcs <+: [] by decide, nofun⟩

theorem default : Sound TerminalStream.default := lineStart nofun

theorem not_block (h : Sound s) (hctl : s.control = false) : s.block = false :=
  Bool.eq_false_iff.mpr fun hb => by
    rw [h.block hb] at hctl
    cases hctl

theorem eq_lineStart (h : Sound s) (hmid : s.midline = false) : s = TerminalStream.lineStart s.control s.block := by
  obtain ⟨htok, hdone, hesc⟩ := h.start hmid
  obtain ⟨token, tokenDone, midline, control, block, escape⟩ := s
  subst htok hdone hesc hmid
  rfl

/-- Settling neither makes a stream sound nor spoils it. -/
theorem settle_iff : Sound s.settle ↔ Sound s := by
  by_cases hlen : 32 ≤ s.token.length
  · rw [settle_of_le hlen]
    have hne : s.token ≠ [] := by
      rintro hnil
      rw [hnil] at hlen
      exact absurd hlen (by decide)
    constructor <;> rintro ⟨hblk, hstart, -, hdcs, -⟩ <;>
      exact ⟨hblk, fun hmid => absurd (hstart hmid).1 hne, fun _ => .inl hne, hdcs,
        fun _ _ => not_arms_of_long hdcs hlen⟩
  · rw [settle_of_lt (Nat.not_le.mp hlen)]

end Sound
variable {s : TerminalStream} {byte : UInt8} {bytes : Bytes}

/-! ### One byte -/

/-- The block a line with this first token leaves the stream in. -/
def blockAfter (token : Bytes) (block : Bool) : Bool :=
  if token == ascii "%begin" then true
  else if token == ascii "%end" || token == ascii "%error" then false
  else block

theorem observeByte_newline (h : Sound s) :
    s.observeByte newline =
      lineStart (s.control || armsControlMode s.token) (blockAfter s.token s.block) := by
  have hback : (newline == backslash) = false := rfl
  rw [observeByte, hback, Bool.and_false, if_neg Bool.false_ne_true]
  simp only [beq_self_eq_true, if_true, stripDcs_of_not h.noDcs]
  rfl

/-- The string terminator leaves control mode. -/
theorem observeByte_terminator (h : (s.control && !s.block && s.escape && byte == backslash) = true) :
    s.observeByte byte = lineStart false false := by
  obtain ⟨token, tokenDone, midline, control, block, escape⟩ := s
  rw [observeByte, if_pos h]
  cases block with
  | false => rfl
  | true => simp at h

/-- Any other byte of a line. -/
theorem observeByte_other (hnl : byte ≠ newline)
    (h : (s.control && !s.block && s.escape && byte == backslash) = false) :
    s.observeByte byte =
      if isAsciiWhitespace byte then
        { s with
          escape := byte == EternalTerminal.escape
          midline := true
          control := s.control || (!s.tokenDone && armsControlMode s.token)
          tokenDone := true }
      else if s.tokenDone = true ∨ 32 ≤ s.token.length then
        { s with escape := byte == EternalTerminal.escape, midline := true }
      else if s.token ++ [byte] = tmuxDcs then
        { s with escape := byte == EternalTerminal.escape, control := true, token := [], midline := false }
      else
        { s with escape := byte == EternalTerminal.escape, midline := true, token := s.token ++ [byte] } := by
  rw [observeByte, if_neg (by rw [h]; exact Bool.false_ne_true)]
  rw [if_neg (by simpa using hnl)]
  by_cases hbl : isAsciiWhitespace byte = true
  · simp [hbl]
  by_cases hdone : s.tokenDone = true
  · simp [hbl, hdone]
  by_cases hlen : 32 ≤ s.token.length
  · simp [hbl, hdone, hlen]
  · simp only [hbl, hdone, hlen]
    by_cases hdcs : s.token ++ [byte] = tmuxDcs <;> simp [hdcs, Nat.not_le.mp hlen]

/-- What a byte can do to a stream. -/
theorem observeByte_cases (h : Sound s) (byte : UInt8) :
    (byte = newline ∧ s.observeByte byte =
        lineStart (s.control || armsControlMode s.token) (blockAfter s.token s.block)) ∨
      ((s.control && !s.block && s.escape && byte == backslash) = true ∧
        s.observeByte byte = lineStart false false) ∨
      (byte ≠ newline ∧ isAsciiWhitespace byte = true ∧ s.observeByte byte =
        { s with
          escape := byte == EternalTerminal.escape
          midline := true
          control := s.control || (!s.tokenDone && armsControlMode s.token)
          tokenDone := true }) ∨
      (byte ≠ newline ∧ (s.tokenDone = true ∨ 32 ≤ s.token.length) ∧
        s.observeByte byte = { s with escape := byte == EternalTerminal.escape, midline := true }) ∨
      (byte ≠ newline ∧ s.tokenDone = false ∧ s.token ++ [byte] = tmuxDcs ∧ s.observeByte byte =
        { s with escape := byte == EternalTerminal.escape, control := true, token := [], midline := false }) ∨
      (byte ≠ newline ∧ isAsciiWhitespace byte = false ∧ s.tokenDone = false ∧ s.token.length < 32 ∧
        s.token ++ [byte] ≠ tmuxDcs ∧ s.observeByte byte =
          { s with escape := byte == EternalTerminal.escape, midline := true, token := s.token ++ [byte] }) := by
  by_cases hnl : byte = newline
  · subst hnl
    exact .inl ⟨rfl, observeByte_newline h⟩
  cases hterm : s.control && !s.block && s.escape && byte == backslash with
  | true => exact .inr (.inl ⟨rfl, observeByte_terminator hterm⟩)
  | false =>
    have heq := observeByte_other hnl hterm
    split at heq
    · exact .inr (.inr (.inl ⟨hnl, ‹_›, heq⟩))
    split at heq
    · exact .inr (.inr (.inr (.inl ⟨hnl, ‹_›, heq⟩)))
    rename_i hbl hdone
    rw [not_or, Bool.not_eq_true, Nat.not_le] at hdone
    split at heq
    · exact .inr (.inr (.inr (.inr (.inl ⟨hnl, hdone.1, ‹_›, heq⟩))))
    · exact .inr (.inr (.inr (.inr (.inr
        ⟨hnl, Bool.eq_false_iff.mpr hbl, hdone.1, hdone.2, ‹_›, heq⟩))))

theorem Sound.observeByte (h : Sound s) (byte : UInt8) : Sound (s.observeByte byte) := by
  rcases observeByte_cases h byte with ⟨-, heq⟩ | ⟨-, heq⟩ | ⟨-, -, heq⟩ | ⟨-, hdone, heq⟩ | ⟨-, hdone, hdcs, heq⟩ |
    ⟨-, -, hdone, -, hdcs, heq⟩ <;> rw [heq]
  · refine .lineStart fun hblk => ?_
    -- a block is opened by a token that arms control mode
    unfold blockAfter at hblk
    split at hblk
    next hbegin =>
      rw [arms_of_block (.inl (by simpa using hbegin)), Bool.or_true]
    · split at hblk
      · cases hblk
      · rw [h.block hblk, Bool.true_or]
  · exact .lineStart nofun
  · refine ⟨fun hblk => ?_, nofun, fun _ => .inr rfl, h.noDcs, fun hctl _ => ?_⟩
    · exact Bool.or_eq_true_iff.mpr (.inl (h.block hblk))
    · obtain ⟨hctl, harms⟩ := Bool.or_eq_false_iff.mp hctl
      cases hd : s.tokenDone with
      | true => exact h.plain hctl hd
      | false => simpa [hd] using harms
  · refine ⟨h.block, nofun, fun _ => ?_, h.noDcs, h.plain⟩
    rcases hdone with hdone | hlen
    · exact .inr hdone
    · refine .inl fun hnil => ?_
      rw [hnil] at hlen
      exact absurd hlen (by decide)
  · refine ⟨fun _ => rfl, fun _ => ⟨rfl, hdone, ?_⟩, nofun, show ¬ tmuxDcs <+: [] by decide, nofun⟩
    -- the introducer does not end in an escape
    have hlast := congrArg List.getLast? hdcs
    rw [List.getLast?_concat] at hlast
    rw [show byte = 0x70 from Option.some.inj (hlast.trans (by decide))]
    rfl
  · refine ⟨h.block, nofun, fun _ => .inl (by simp), fun hpre => ?_, fun _ hd => ?_⟩
    · rcases prefix_concat_iff.mp hpre with heq' | hpre
      · exact hdcs heq'.symm
      · exact h.noDcs hpre
    · exact absurd hdone (by rw [show s.tokenDone = true from hd]; decide)

theorem Sound.feed (h : Sound s) (bytes : Bytes) : Sound (s.feed bytes) := by
  induction bytes generalizing s with
  | nil => exact h
  | cons byte bytes ih => exact ih (Sound.settle_iff.mpr (h.observeByte byte))

/-- Whether a token of full length has ended makes no difference to the next byte. -/
theorem settle_observeByte_settle (h : Sound s) (byte : UInt8) :
    (s.settle.observeByte byte).settle = (s.observeByte byte).settle := by
  by_cases hlen : s.token.length < 32
  · rw [settle_of_lt hlen]
  rw [Nat.not_lt] at hlen
  have hs := Sound.settle_iff.mpr h
  rw [settle_of_le hlen] at hs ⊢
  by_cases hnl : byte = newline
  · subst hnl
    rw [observeByte_newline h, observeByte_newline hs]
  cases hterm : s.control && !s.block && s.escape && byte == backslash with
  | true => rw [observeByte_terminator hterm, observeByte_terminator (by exact hterm)]
  | false =>
    rw [observeByte_other hnl hterm, observeByte_other hnl (by exact hterm)]
    split
    · rw [not_arms_of_long h.noDcs hlen, Bool.and_false, Bool.and_false]
    · rw [if_pos (.inl rfl), if_pos (.inr hlen)]
      simp only [settle, hlen, if_true]

/-! ### The shortcuts -/

/-- What `observe` does with one byte: of a plain line whose token is done it looks for the newline only. -/
def scanByte (s : TerminalStream) (byte : UInt8) : TerminalStream :=
  if (!s.control && (s.tokenDone || decide (32 ≤ s.token.length)) && byte != newline) = true then
    { s with midline := true, escape := byte == EternalTerminal.escape }
  else s.observeByte byte

theorem scanByte_newline (s : TerminalStream) : s.scanByte newline = s.observeByte newline :=
  if_neg (by simp)

section
variable (hscan : (!s.control && (s.tokenDone || decide (32 ≤ s.token.length))) = true)
include hscan

/-- The rest of a plain line whose token is done. -/
theorem scan_rest (hne : bytes ≠ []) (hline : newline ∉ bytes) :
    bytes.foldl scanByte s = { s with midline := true, escape := bytes.getLast? == some EternalTerminal.escape } := by
  induction bytes generalizing s with
  | nil => exact absurd rfl hne
  | cons byte bytes ih =>
    rw [mem_cons, not_or] at hline
    have hone : s.scanByte byte = { s with midline := true, escape := byte == EternalTerminal.escape } :=
      if_pos (by rw [hscan]; simpa using fun h => hline.1 h.symm)
    rw [foldl_cons, hone]
    cases bytes with
    | nil => rfl
    | cons next bytes =>
      rw [ih (by exact hscan) (cons_ne_nil _ _) hline.2]
      rfl

/-- Nothing of a plain line whose token is done survives its newline. -/
theorem scan_rest_newline (hline : newline ∉ bytes) :
    (bytes.foldl scanByte s).scanByte newline = s.observeByte newline := by
  rw [scanByte_newline]
  by_cases hne : bytes = []
  · rw [hne, foldl_nil]
  rw [scan_rest hscan hne hline]
  obtain ⟨token, tokenDone, midline, control, block, escape⟩ := s
  cases control with
  | true => cases hscan
  | false => rfl

end

theorem newline_of_dropWhile {rest : Bytes} (h : bytes.dropWhile (· != newline) = byte :: rest) : byte = newline := by
  have hhead := List.head?_dropWhile_not (· != newline) bytes
  rw [h] at hhead
  simpa using hhead

theorem observeLoop_eq {fuel : Nat} (hfuel : bytes.length ≤ fuel) : observeLoop fuel s bytes = bytes.foldl scanByte s := by
  induction fuel generalizing s bytes with
  | zero =>
    rw [length_eq_zero_iff.mp (Nat.le_zero.mp hfuel)]
    rfl
  | succ fuel ih =>
    unfold observeLoop
    dsimp only
    by_cases hscan : (!s.control && (s.tokenDone || decide (32 ≤ s.token.length))) = true
    · -- the scan to the newline: what it skips leaves no trace
      rw [if_pos hscan]
      have hskip : newline ∉ bytes.takeWhile (· != newline) := by
        intro hmem
        have := mem_takeWhile_imp hmem
        simp at this
      have hspl := takeWhile_append_dropWhile (p := (· != newline)) (l := bytes)
      cases hrest : bytes.dropWhile (· != newline) with
      | nil =>
        rw [hrest, append_nil] at hspl
        rw [hspl] at hskip
        by_cases hne : bytes = []
        · simp [hne]
        · rw [if_neg (by simpa using hne), scan_rest hscan hne hskip]
      | cons byte rest =>
        obtain rfl := newline_of_dropWhile hrest
        rw [hrest] at hspl
        have hlen := congrArg List.length hspl
        rw [length_append, length_cons] at hlen
        dsimp only
        rw [ih (by omega), ← hspl, foldl_append, foldl_cons, scan_rest_newline hscan hskip]
    · rw [if_neg hscan]
      cases bytes with
      | nil => rfl
      | cons byte rest =>
        have hone : s.scanByte byte = s.observeByte byte :=
          if_neg fun h => hscan (Bool.and_eq_true_iff.mp h).1
        dsimp only
        rw [ih (Nat.le_of_succ_le_succ hfuel), foldl_cons, hone]

theorem settle_scanByte (h : Sound s) (byte : UInt8) :
    (s.scanByte byte).settle = (s.settle.observeByte byte).settle := by
  unfold scanByte
  split
  next hscan =>
    simp only [Bool.and_eq_true, Bool.not_eq_true', bne_iff_ne] at hscan
    obtain ⟨⟨hctl, hdone⟩, hbyte⟩ := hscan
    have hset : s.settle.tokenDone = true := by rw [tokenDone_settle]; exact hdone
    have hpl : s.settle.control = false := by rw [s.settle_fields.2.2.1]; exact hctl
    have hone : s.settle.observeByte byte =
        { s.settle with midline := true, escape := byte == EternalTerminal.escape } := by
      rw [observeByte_other hbyte (by rw [hpl]; rfl)]
      split
      · simp [hset, hpl]
      · exact if_pos (.inl hset)
    rw [hone]
    by_cases hlen : 32 ≤ s.token.length <;> simp [settle, hlen]
  · exact (settle_observeByte_settle h byte).symm

theorem Sound.scanByte (h : Sound s) (byte : UInt8) : Sound (s.scanByte byte) := by
  rw [← settle_iff, settle_scanByte h]
  exact settle_iff.mpr ((settle_iff.mpr h).observeByte byte)

theorem settle_scan (h : Sound s) (bytes : Bytes) : (bytes.foldl scanByte s).settle = s.settle.feed bytes := by
  induction bytes generalizing s with
  | nil => rfl
  | cons byte bytes ih => rw [foldl_cons, ih (h.scanByte byte), settle_scanByte h, feed_cons]

/-- A token that cannot become a control token, whatever comes after it but a percent sign or an
escape. -/
theorem tokenMayBeControl_concat (h : s.tokenMayBeControl = false)
    (hpct : byte ≠ percent) (hesc : byte ≠ EternalTerminal.escape) :
    tokenMayBeControl { s with token := s.token ++ [byte] } = false := by
  have hfst : ¬ [byte] <+: tmuxDcs := by
    rintro ⟨rest, hrest⟩
    exact hesc (List.cons.inj (hrest.trans (show tmuxDcs = EternalTerminal.escape :: ascii "P1000p" from rfl))).1
  by_cases hnil : s.token = []
  · have hstrip : stripDcs [byte] = [byte] := by
      refine stripDcs_of_not fun hpre => ?_
      have hlen := hpre.length_le
      rw [length_singleton] at hlen
      exact absurd hlen (by decide)
    simp [tokenMayBeControl, hnil, hfst, hstrip, hpct]
  · have hpre : ¬ s.token <+: tmuxDcs := by
      intro hpre
      simp [tokenMayBeControl, hnil, hpre] at h
    have hpre' : ¬ s.token ++ [byte] <+: tmuxDcs := fun hp => hpre ((prefix_append _ _).trans hp)
    -- the introducer is in front of the longer token exactly when it is in front of the shorter
    have hstrip : stripDcs (s.token ++ [byte]) = stripDcs s.token ++ [byte] := by
      by_cases hdcs : tmuxDcs <+: s.token
      · obtain ⟨rest, hrest⟩ := hdcs
        rw [← hrest, append_assoc, stripDcs, stripDcs, if_pos (by simp), if_pos (by simp), drop_left, drop_left]
      have hdcs' : ¬ tmuxDcs <+: s.token ++ [byte] := by
        intro hp
        rcases prefix_concat_iff.mp hp with heq | hp
        · exact hpre ⟨[byte], heq.symm⟩
        · exact hdcs hp
      rw [stripDcs_of_not hdcs, stripDcs_of_not hdcs']
    have hne : stripDcs s.token ≠ [] := by
      intro hemp
      by_cases hdcs : tmuxDcs <+: s.token
      · obtain ⟨rest, hrest⟩ := hdcs
        rw [← hrest, stripDcs, if_pos (by simp), drop_left] at hemp
        rw [hemp, append_nil] at hrest
        exact hpre (hrest ▸ prefix_rfl)
      · rw [stripDcs_of_not hdcs] at hemp
        exact hnil hemp
    simp only [tokenMayBeControl, List.isEmpty_iff, hnil, if_false, List.isPrefixOf_iff_prefix, hpre,
      Bool.or_eq_false_iff] at h
    simp only [tokenMayBeControl, List.isEmpty_iff, append_eq_nil_iff, hnil, false_and, if_false,
      List.isPrefixOf_iff_prefix, hpre', hstrip, Bool.or_eq_false_iff]
    obtain ⟨hone, htwo⟩ := h
    cases htok : stripDcs s.token with
    | nil => exact absurd htok hne
    | cons first rest =>
      rw [htok] at hone htwo
      cases rest with
      | nil =>
        have hfst' : first ≠ percent := by simpa using hone
        simp [hfst']
      | cons second rest => simpa using htwo

theorem not_arms_of_quiet (h : Sound s) (hctl : s.control = false)
    (hqt : s.tokenDone = true ∨ s.tokenMayBeControl = false) : armsControlMode s.token = false := by
  rcases hqt with hdone | hqt
  · exact h.plain hctl hdone
  refine Bool.eq_false_iff.mpr fun harms => ?_
  have hmem := mem_of_arms h.noDcs harms
  obtain ⟨-, hhead, hsnd, -, -⟩ := tmuxControlTokens_shape _ hmem
  have hne : s.token ≠ [] := by
    rintro hnil
    rw [hnil] at hhead
    cases hhead
  simp only [tokenMayBeControl, List.isEmpty_iff, hne, if_false, stripDcs_of_not h.noDcs, hhead, hsnd] at hqt
  split at hqt
  · cases hqt
  · simp at hqt

theorem tokenMayBeControl_settle (s : TerminalStream) : s.settle.tokenMayBeControl = s.tokenMayBeControl := by
  unfold tokenMayBeControl
  rw [s.settle_fields.1]

section
variable (h : Sound s) (hctl : s.control = false) (hqt : s.tokenDone = true ∨ s.tokenMayBeControl = false)
include h hctl hqt

/-- A byte of plain output that is neither a percent sign nor an escape keeps it plain. -/
theorem observeByte_quiet (hpct : byte ≠ percent) (hesc : byte ≠ EternalTerminal.escape) :
    (s.observeByte byte).settle.control = false ∧ ((s.observeByte byte).settle.tokenDone = true ∨
      (s.observeByte byte).settle.tokenMayBeControl = false) := by
  have harms := not_arms_of_quiet h hctl hqt
  rw [(settle_fields _).2.2.1, tokenDone_settle, tokenMayBeControl_settle]
  rcases observeByte_cases h byte with ⟨-, heq⟩ | ⟨-, heq⟩ | ⟨-, -, heq⟩ | ⟨-, hdone, heq⟩ |
    ⟨-, hdone, hdcs, -⟩ | ⟨-, -, hdone, -, -, heq⟩
  · rw [heq, harms, hctl]
    exact ⟨rfl, .inr rfl⟩
  · rw [heq]
    exact ⟨rfl, .inr rfl⟩
  · rw [heq, harms, hctl, Bool.and_false]
    exact ⟨rfl, .inl rfl⟩
  · rw [heq]
    refine ⟨hctl, .inl ?_⟩
    rcases hdone with hdone | hlen
    · simp [hdone]
    · simp [hlen]
  · -- a token on its way to the introducer is not quiet
    have hpre : s.token <+: tmuxDcs := ⟨[byte], hdcs⟩
    have hne : s.token ≠ [] := by
      intro hnil
      have hlen := congrArg List.length hdcs
      rw [hnil, nil_append, length_singleton] at hlen
      exact absurd hlen (by decide)
    have hbusy : s.tokenMayBeControl = true := by simp [tokenMayBeControl, hne, hpre]
    rcases hqt with hd | hq
    · rw [hdone] at hd
      cases hd
    · rw [hbusy] at hq
      cases hq
  · rw [heq]
    refine ⟨hctl, .inr ?_⟩
    rcases hqt with hd | hq
    · rw [hdone] at hd
      cases hd
    · exact tokenMayBeControl_concat hq hpct hesc

/-- Plain output without a percent sign or an escape stays plain. -/
theorem feed_quiet (hbs : ∀ byte ∈ bytes, byte ≠ percent ∧ byte ≠ EternalTerminal.escape) :
    (s.feed bytes).control = false ∧
      ((s.feed bytes).tokenDone = true ∨ (s.feed bytes).tokenMayBeControl = false) := by
  induction bytes generalizing s with
  | nil => exact ⟨hctl, hqt⟩
  | cons byte bytes ih =>
    obtain ⟨hpct, hesc⟩ := hbs byte mem_cons_self
    obtain ⟨hctl', hqt'⟩ := observeByte_quiet h hctl hqt hpct hesc
    exact ih (Sound.settle_iff.mpr (h.observeByte byte)) hctl' hqt'
      fun b hb => hbs b (mem_cons_of_mem _ hb)

end

theorem blockAfter_of_not_arms {token : Bytes} (h : armsControlMode token = false) (block : Bool) :
    blockAfter token block = block := by
  have hnot : ∀ t, armsControlMode t = true → token ≠ t := by
    rintro t ht rfl
    rw [ht] at h
    cases h
  have h₁ := hnot _ (arms_of_block (.inl rfl))
  have h₂ := hnot _ (arms_of_block (.inr (.inl rfl)))
  have h₃ := hnot _ (arms_of_block (.inr (.inr rfl)))
  simp [blockAfter, h₁, h₂, h₃]

/-- The newline of such a line resets all but the mode. -/
theorem observeByte_newline_quiet (h : Sound s) (hctl : s.control = false)
    (hqt : s.tokenDone = true ∨ s.tokenMayBeControl = false) :
    s.observeByte newline = lineStart false false := by
  have harms := not_arms_of_quiet h hctl hqt
  rw [observeByte_newline h, harms, hctl, blockAfter_of_not_arms harms, h.not_block hctl]
  rfl

theorem afterLastNewline_eq {rest : Bytes} (h : afterLastNewline bytes = some rest) :
    ∃ front, bytes = front ++ newline :: rest := by
  unfold afterLastNewline at h
  split at h
  next hmem =>
    cases h
    have hspl := takeWhile_append_dropWhile (p := (· != newline)) (l := bytes.reverse)
    cases hrest : bytes.reverse.dropWhile (· != newline) with
    | nil =>
      rw [dropWhile_eq_nil_iff] at hrest
      have := hrest newline (by simpa using hmem)
      simp at this
    | cons byte front =>
      rw [hrest, newline_of_dropWhile hrest] at hspl
      refine ⟨front.reverse, ?_⟩
      have hrev := congrArg List.reverse hspl
      rw [reverse_reverse, reverse_append, reverse_cons, append_assoc] at hrev
      exact hrev.symm
  · cases h

theorem newline_not_mem_of_afterLastNewline (h : afterLastNewline bytes = none) :
    newline ∉ bytes := by
  unfold afterLastNewline at h
  split at h
  · cases h
  next hmem =>
    simpa using hmem

/-- **The shortcuts change nothing**: observing is a fold over the bytes. -/
theorem observe_eq (h : Sound s) (bytes : Bytes) : s.observe bytes = bytes.foldl scanByte s := by
  unfold observe
  by_cases hfast : (!s.control && (s.tokenDone || !s.tokenMayBeControl) &&
      !bytes.any fun b => b == percent || b == EternalTerminal.escape) = true
  · rw [if_pos hfast]
    simp only [Bool.and_eq_true, Bool.not_eq_true', Bool.or_eq_true, any_eq_false, beq_iff_eq, not_or] at hfast
    obtain ⟨⟨hctl, hqt⟩, hbs⟩ := hfast
    cases hlast : afterLastNewline bytes with
    | some rest =>
      obtain ⟨front, rfl⟩ := afterLastNewline_eq hlast
      have hs := Sound.settle_iff.mpr h
      have hqt' : s.settle.tokenDone = true ∨ s.settle.tokenMayBeControl = false := by
        rw [tokenDone_settle, tokenMayBeControl_settle]
        rcases hqt with hdone | hqt
        · exact .inl (by simp [hdone])
        · exact .inr hqt
      obtain ⟨hctl', hqt''⟩ := feed_quiet hs (by rw [s.settle_fields.2.2.1]; exact hctl) hqt'
        fun b hb => hbs b (mem_append_left _ hb)
      have hfro : (front.foldl scanByte s).scanByte newline = lineStart false false := by
        have hscanned : Sound (front.foldl scanByte s) := by
          rw [← Sound.settle_iff, settle_scan h]
          exact hs.feed front
        rw [scanByte_newline]
        refine eq_lineStart_of_settle ?_
        rw [← settle_observeByte_settle hscanned, settle_scan h,
          observeByte_newline_quiet (hs.feed front) hctl' hqt'', settle_lineStart]
      have hreset : { s with token := [], tokenDone := false, midline := false, escape := false } =
          lineStart false false := by
        rw [hctl, h.not_block hctl]
        rfl
      dsimp only
      rw [hreset, observeLoop_eq le_rfl, foldl_append, foldl_cons, hfro]
    | none =>
      have hline := newline_not_mem_of_afterLastNewline hlast
      dsimp only
      split
      next hdone =>
        by_cases hne : bytes = []
        · simp [hne]
        have hlastByte : (bytes.getLast? == some EternalTerminal.escape) = false := by
          refine Bool.eq_false_iff.mpr fun heq => ?_
          exact (hbs _ (List.mem_of_getLast? (by simpa using heq))).2 rfl
        rw [if_neg (by simpa using hne), scan_rest (by rw [hctl]; exact hdone) hne hline, hlastByte]
      · exact observeLoop_eq le_rfl
  · rw [if_neg hfast]
    exact observeLoop_eq le_rfl

theorem settle_observe (h : Sound s) (bytes : Bytes) : (s.observe bytes).settle = s.settle.feed bytes := by
  rw [observe_eq h, settle_scan h]

theorem Sound.observe (h : Sound s) (bytes : Bytes) : Sound (s.observe bytes) := by
  rw [← settle_iff, settle_observe h]
  exact (settle_iff.mpr h).feed bytes

/-- Control mode, and whether a response block is open. -/
def modes (s : TerminalStream) : Bool × Bool := (s.control, s.block)

@[simp] theorem modes_settle (s : TerminalStream) : s.settle.modes = s.modes := by
  rw [modes, modes, s.settle_fields.2.2.1, s.settle_fields.2.2.2.1]

/-- Out of control mode no block is open. -/
theorem Sound.modes_plain (h : Sound s) (hctl : s.control = false) : s.modes = (false, false) := by
  rw [modes, hctl, h.not_block hctl]

/-- The streams that observing leads to, from the start. -/
inductive Observed : TerminalStream → Prop where
  | default : Observed .default
  | observe {s : TerminalStream} (bytes : Bytes) : Observed s → Observed (s.observe bytes)

theorem Observed.sound (h : Observed s) : Sound s := by
  induction h with
  | default => exact .default
  | observe bytes _ ih => exact ih.observe bytes

theorem settle_foldl_observeByte (h : Sound s) (bytes : Bytes) :
    (bytes.foldl observeByte s).settle = s.settle.feed bytes := by
  induction bytes generalizing s with
  | nil => rfl
  | cons byte bytes ih => rw [foldl_cons, ih (h.observeByte byte), feed_cons, settle_observeByte_settle h]

theorem settle_foldl_observe (hs : Sound s) (pieces : List Bytes) :
    (pieces.foldl observe s).settle = s.settle.feed pieces.flatten := by
  induction pieces generalizing s with
  | nil => rfl
  | cons piece pieces ih =>
    rw [foldl_cons, ih (hs.observe piece), flatten_cons, feed_append, settle_observe hs]

/-- **Observing does not depend on how the output is cut.**  Two pieces lead to the stream their concatenation leads
to; and the mode, the place in the line and a pending escape are those of the automaton that takes every byte. -/
theorem observe_pieces {s : TerminalStream} (hs : Observed s) (a b : Bytes) :
    s.observe (a ++ b) = (s.observe a).observe b ∧
      ∀ pieces : List Bytes,
        let observed := pieces.foldl observe .default
        let plain := pieces.flatten.foldl observeByte .default
        observed.control = plain.control ∧ observed.block = plain.block ∧ observed.midline = plain.midline ∧
          observed.escape = plain.escape := by
  refine ⟨?_, fun pieces => ?_⟩
  · rw [observe_eq hs.sound, foldl_append, ← observe_eq hs.sound, ← observe_eq (hs.observe a).sound]
  · have heq := (settle_foldl_observe .default pieces).trans (settle_foldl_observeByte .default pieces.flatten).symm
    obtain ⟨-, hmid, hcontrol, hblock, hescape⟩ := settle_fields (pieces.foldl observe .default)
    dsimp only
    rw [← hmid, ← hcontrol, ← hblock, ← hescape, heq]
    obtain ⟨-, hmid, hcontrol, hblock, hescape⟩ := settle_fields (pieces.flatten.foldl observeByte .default)
    exact ⟨hcontrol, hblock, hmid, hescape⟩

/-- A control token that is cut in two. -/
theorem observe_pieces_token :
    (observe .default (ascii "%beg" ++ ascii "in 1\n")).modes = (true, true) ∧
      observe .default (ascii "%beg" ++ ascii "in 1\n") = (observe .default (ascii "%beg")).observe (ascii "in 1\n") :=
  ⟨by decide +kernel, (observe_pieces .default _ _).1⟩

end TerminalStream
variable {lines : List Bytes}

/-! ### Lines -/

/-- A line with its newline. -/
def IsLine (line : Bytes) : Prop := ∃ body, newline ∉ body ∧ line = body ++ [newline]

/-- What comes before the first newline, when there is none. -/
def IsRemainder (bytes : Bytes) : Prop := bytes ≠ [] ∧ newline ∉ bytes

/-- Lines as they are cut from a byte string: all but the last have their newline. -/
def WellCut (lines : List Bytes) : Prop :=
  ∃ whole last, lines = whole ++ last ∧ (∀ line ∈ whole, IsLine line) ∧
    (last = [] ∨ ∃ bytes, last = [bytes] ∧ IsRemainder bytes)

variable {line bytes : Bytes}

theorem IsLine.getLast? (h : IsLine line) : line.getLast? = some newline := by
  obtain ⟨body, -, rfl⟩ := h
  exact List.getLast?_concat

theorem IsRemainder.getLast? (h : IsRemainder bytes) : bytes.getLast? ≠ some newline :=
  fun hlast => h.2 (List.mem_of_getLast? hlast)

theorem WellCut.cons (h : WellCut (line :: lines)) :
    (IsLine line ∧ WellCut lines) ∨ (IsRemainder line ∧ lines = []) := by
  obtain ⟨whole, last, heq, hwh, hlast⟩ := h
  cases whole with
  | nil =>
    rcases hlast with rfl | ⟨bytes, rfl, hbs⟩
    · cases heq
    · obtain ⟨rfl, rfl⟩ := List.cons.inj heq
      exact .inr ⟨hbs, rfl⟩
  | cons first whole =>
    obtain ⟨rfl, rfl⟩ := List.cons.inj heq
    exact .inl ⟨hwh line mem_cons_self, whole, last, rfl, fun l hl => hwh l (mem_cons_of_mem _ hl), hlast⟩

theorem WellCut.take (h : WellCut lines) (n : Nat) : WellCut (lines.take n) := by
  obtain ⟨whole, last, rfl, hwh, hlast⟩ := h
  refine ⟨whole.take n, last.take (n - whole.length), take_append, fun line hline => ?_, ?_⟩
  · exact hwh line (mem_of_mem_take hline)
  · rcases hlast with rfl | ⟨bytes, rfl, hbs⟩
    · exact .inl take_nil
    · cases n - whole.length with
      | zero => exact .inl rfl
      | succ m => exact .inr ⟨bytes, by simp, hbs⟩

theorem WellCut.drop (h : WellCut lines) (n : Nat) : WellCut (lines.drop n) := by
  obtain ⟨whole, last, rfl, hwh, hlast⟩ := h
  refine ⟨whole.drop n, last.drop (n - whole.length), drop_append, fun line hline => ?_, ?_⟩
  · exact hwh line (mem_of_mem_drop hline)
  · rcases hlast with rfl | ⟨bytes, rfl, hbs⟩
    · exact .inl drop_nil
    · cases n - whole.length with
      | zero => exact .inr ⟨bytes, rfl, hbs⟩
      | succ m => exact .inl (by simp)

theorem WellCut.tail (h : WellCut (line :: lines)) : WellCut lines := h.drop 1

theorem wellCut_splitLines (bytes : Bytes) : WellCut (splitLines bytes) := by
  induction bytes with
  | nil => exact ⟨[], [], rfl, nofun, .inl rfl⟩
  | cons b rest ih =>
    obtain ⟨whole, last, heq, hwh, hlast⟩ := ih
    rw [splitLines]
    split
    next hb =>
      refine ⟨[b] :: whole, last, by rw [heq]; rfl, forall_mem_cons.mpr ⟨⟨[], not_mem_nil, ?_⟩, hwh⟩, hlast⟩
      rw [beq_iff_eq.mp hb]
      rfl
    rename_i hb
    have hne : newline ≠ b := fun hb' => hb (beq_iff_eq.mpr hb'.symm)
    cases whole with
    | nil =>
      rcases hlast with rfl | ⟨bytes, rfl, hbs⟩
      · rw [heq]
        exact ⟨[], [[b]], rfl, nofun, .inr ⟨[b], rfl, cons_ne_nil _ _, by simpa using hne⟩⟩
      · rw [heq]
        refine ⟨[], [b :: bytes], rfl, nofun, .inr ⟨b :: bytes, rfl, cons_ne_nil _ _, ?_⟩⟩
        rw [mem_cons, not_or]
        exact ⟨hne, hbs.2⟩
    | cons line whole =>
      rw [heq]
      obtain ⟨⟨body, hbody, rfl⟩, hrest⟩ := forall_mem_cons.mp hwh
      refine ⟨(b :: _) :: whole, last, rfl, forall_mem_cons.mpr ⟨⟨b :: body, ?_, rfl⟩, hrest⟩, hlast⟩
      rw [mem_cons, not_or]
      exact ⟨hne, hbody⟩

theorem splitLines_line_append (h : IsLine line) (rest : Bytes) :
    splitLines (line ++ rest) = line :: splitLines rest := by
  obtain ⟨body, hbody, rfl⟩ := h
  induction body with
  | nil => rfl
  | cons b body ih =>
    rw [mem_cons, not_or] at hbody
    rw [cons_append, cons_append, splitLines, if_neg (by simpa using fun h => hbody.1 h.symm), ih hbody.2]

theorem splitLines_remainder (h : IsRemainder bytes) : splitLines bytes = [bytes] := by
  obtain ⟨hne, hline⟩ := h
  induction bytes with
  | nil => exact absurd rfl hne
  | cons b bytes ih =>
    rw [mem_cons, not_or] at hline
    rw [splitLines, if_neg (by simpa using fun h => hline.1 h.symm)]
    cases bytes with
    | nil => rfl
    | cons c bytes => rw [ih (cons_ne_nil _ _) hline.2]

/-- Lines that are joined and cut again. -/
theorem splitLines_flatten_append (h : ∀ line ∈ lines, IsLine line) (rest : Bytes) :
    splitLines (lines.flatten ++ rest) = lines ++ splitLines rest := by
  induction lines with
  | nil => rfl
  | cons line lines ih =>
    rw [flatten_cons, append_assoc, splitLines_line_append (h line mem_cons_self),
      ih fun l hl => h l (mem_cons_of_mem _ hl)]
    rfl

theorem WellCut.splitLines_flatten (h : WellCut lines) : splitLines lines.flatten = lines := by
  obtain ⟨whole, last, rfl, hwh, hlast⟩ := h
  rw [flatten_append, splitLines_flatten_append hwh]
  rcases hlast with rfl | ⟨bytes, rfl, hbs⟩
  · rfl
  · rw [flatten_singleton, splitLines_remainder hbs]

namespace TerminalStream
variable {s : TerminalStream} {line : Bytes} (h : Sound s) (hline : IsLine line)
include h hline

/-- **A line ends at the start of the next.** -/
theorem observe_line : s.observe line = lineStart (s.observe line).control (s.observe line).block := by
  obtain ⟨body, -, rfl⟩ := hline
  have hfed := (Sound.settle_iff.mpr h).feed body
  have hend : (s.observe (body ++ [newline])).settle = _ := settle_observe h _
  rw [feed_append, feed_cons, feed_nil, observeByte_newline hfed, settle_lineStart] at hend
  rw [eq_lineStart_of_settle hend]
  rfl

theorem observe_line_eq : s.observe line = s.settle.feed line := by
  rw [← settle_observe h, observe_line h hline, settle_lineStart]

end TerminalStream

end EternalTerminal
