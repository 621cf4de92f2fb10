import EternalTerminal.Lib.Bytes

/-!
# Core — interrupts and unsent terminal output

`TerminalStream` is what the terminal output handed out so far leaves a reader with: the first token
of its line, and whether it is in tmux control mode, in a response block, in the middle of a line or
after an escape.  With it the unsent output is partitioned by lines into what a tmux control client
still needs and what an interrupt may drop.
-/

namespace EternalTerminal
open List

def flushThreshold : Nat := 64 * 1024

/-- The bytes of a literal. -/
def ascii (s : String) : Bytes := s.toUTF8.data.toList

def newline : UInt8 := 0x0a
def percent : UInt8 := 0x25
def escape : UInt8 := 0x1b
def backslash : UInt8 := 0x5c

def isAsciiWhitespace (b : UInt8) : Bool :=
  b == 0x20 || b == 0x09 || b == newline || b == 0x0c || b == 0x0d

def isAsciiLowercase (b : UInt8) : Bool := decide (0x61 ≤ b) && decide (b ≤ 0x7a)

/-- The device control string with which tmux opens control mode. -/
def tmuxDcs : Bytes := escape :: ascii "P1000p"

def stripDcs (token : Bytes) : Bytes :=
  if tmuxDcs.isPrefixOf token then token.drop tmuxDcs.length else token

def tmuxControlTokens : List Bytes :=
  ["%begin", "%end", "%error", "%output", "%extended-output", "%exit", "%layout-change", "%window-add",
    "%window-close", "%window-renamed", "%pane-mode-changed", "%window-pane-changed",
    "%unlinked-window-add", "%unlinked-window-close", "%unlinked-window-renamed", "%session-changed",
    "%session-renamed", "%session-window-changed", "%sessions-changed", "%client-detached",
    "%client-session-changed", "%subscription-changed", "%message", "%config-error", "%continue",
    "%pause", "%paste-buffer-changed", "%paste-buffer-deleted"].map ascii

def isTmuxControlToken (token : Bytes) : Bool := tmuxControlTokens.contains (stripDcs token)

/-- The first token of a line puts the stream in control mode; a plain `%exit` does not. -/
def armsControlMode (token : Bytes) : Bool :=
  let token := stripDcs token
  token != ascii "%exit" && isTmuxControlToken token

def lineFirstToken (line : Bytes) : Bytes := stripDcs (line.takeWhile fun b => !isAsciiWhitespace b)

/-- Lines, each with its newline; the last may have none. -/
def splitLines : Bytes → List Bytes
  | [] => []
  | b :: rest =>
    if b == newline then [b] :: splitLines rest
    else match splitLines rest with
      | [] => [[b]]
      | line :: lines => (b :: line) :: lines

/-! ### The stream -/

/-- The state of what was already handed to the writer. -/
structure TerminalStream where
  token : Bytes
  tokenDone : Bool
  midline : Bool
  control : Bool
  block : Bool
  escape : Bool
  deriving DecidableEq

/-- A percent sign before a lowercase letter, or `ESC P`. -/
def introducesControl : Bytes → Bool
  | b :: c :: rest =>
    (if b == percent then isAsciiLowercase c else b == escape && c == 0x50) ||
      introducesControl (c :: rest)
  | _ => false

/-- What follows the last newline, if there is one. -/
def afterLastNewline (bytes : Bytes) : Option Bytes :=
  if bytes.contains newline then some (bytes.reverse.takeWhile (· != newline)).reverse else none

namespace TerminalStream

def default : TerminalStream := ⟨[], false, false, false, false, false⟩

def tokenMayBeControl (s : TerminalStream) : Bool :=
  if s.token.isEmpty then false
  else if s.token.isPrefixOf tmuxDcs then true
  else
    let token := stripDcs s.token
    token == [percent] || (token.head? == some percent && (token[1]?).any isAsciiLowercase)

def mayContainControl (s : TerminalStream) (bytes : Bytes) : Bool :=
  if s.control || (!s.tokenDone && s.tokenMayBeControl) then true
  else if (bytes.drop (bytes.length - 3)).any fun b => b == percent || b == EternalTerminal.escape then true
  else introducesControl bytes

/-- One byte. -/
def observeByte (s : TerminalStream) (byte : UInt8) : TerminalStream :=
  -- `ESC \` ends control mode, but not inside a response block
  if s.control && !s.block && s.escape && byte == backslash then
    { s with control := false, token := [], tokenDone := false, midline := false, escape := false }
  else
    let s := { s with escape := byte == EternalTerminal.escape }
    if byte == newline then
      -- the line's first token may have been all of it
      let token := stripDcs s.token
      { s with
        control := s.control || armsControlMode token
        block := if token == ascii "%begin" then true
          else if token == ascii "%end" || token == ascii "%error" then false
          else s.block
        token := []
        tokenDone := false
        midline := false }
    else
      let s := { s with midline := true }
      let s :=
        -- a blank ends the first token
        if isAsciiWhitespace byte then
          { s with control := s.control || (!s.tokenDone && armsControlMode s.token), tokenDone := true }
        else s
      -- no control token is longer than what is kept of the first token
      if !s.tokenDone && decide (s.token.length < 32) then
        let token := s.token ++ [byte]
        if token == tmuxDcs then { s with control := true, token := [], midline := false }
        else { s with token := token }
      else s

/-- The loop of `observe`; every round takes at least one byte, so `fuel` bytes are enough.  Outside
control mode the rest of a line whose token is done is skipped by a scan for its newline. -/
def observeLoop : Nat → TerminalStream → Bytes → TerminalStream
  | 0, s, _ => s
  | fuel + 1, s, bytes =>
    let scans := !s.control && (s.tokenDone || decide (32 ≤ s.token.length))
    match (if scans then bytes.dropWhile (· != newline) else bytes) with
    | byte :: rest => observeLoop fuel (s.observeByte byte) rest
    | [] =>
      if bytes.isEmpty then s
      else { s with midline := true, escape := bytes.getLast? == some EternalTerminal.escape }

def observe (s : TerminalStream) (bytes : Bytes) : TerminalStream :=
  if !s.control && (s.tokenDone || !s.tokenMayBeControl) &&
      !bytes.any fun b => b == percent || b == EternalTerminal.escape then
    -- only the last line can matter
    match afterLastNewline bytes with
    | some rest =>
      observeLoop rest.length
        { s with token := [], tokenDone := false, midline := false, escape := false } rest
    | none =>
      if s.tokenDone || decide (32 ≤ s.token.length) then
        if bytes.isEmpty then s else { s with midline := true, escape := false }
      else observeLoop bytes.length s bytes
  else observeLoop bytes.length s bytes

end TerminalStream

/-! ### Partitioning unsent output -/

/-- What a partition answers. -/
structure FilteredOutput where
  kept : Bytes
  dropped : Nat
  skipUntilNewline : Bool
  droppable : Bytes

/-- The accumulators of the loop over the lines. -/
structure Partition where
  state : TerminalStream
  kept : Bytes
  droppable : Bytes
  skipUntilNewline : Bool

namespace TerminalStream

/-- A line that was already sent in part is finished, with the lines after it up to the first that
starts with a percent sign or is empty. -/
def finishLines : List Bytes → TerminalStream → Bytes → TerminalStream × Bytes × List Bytes
  | [], state, kept => (state, kept, [])
  | line :: lines, state, kept =>
    if line.head? == some percent || line.head? == some newline then (state, kept, line :: lines)
    else finishLines lines (state.observe line) (kept ++ line)

/-- A tmux control client needs the line. -/
def keeps (state : TerminalStream) (line : Bytes) : Bool :=
  let token := lineFirstToken line
  let pane := token == ascii "%output" || token == ascii "%extended-output"
  let controlToken := isTmuxControlToken token || (state.control && token.head? == some percent)
  let dcsTerminator := state.control && !state.block &&
    ([EternalTerminal.escape, backslash].isPrefixOf token ||
      (state.escape && line.head? == some backslash))
  state.block || (state.control && state.midline) || (controlToken && !pane) || dcsTerminator ||
    (state.control && token.isEmpty)

def partitionLine (retainDroppable : Bool) (p : Partition) (line : Bytes) : Partition :=
  let token := lineFirstToken line
  let pane := token == ascii "%output" || token == ascii "%extended-output"
  let state := p.state.observe line
  if p.state.keeps line then { p with state := state, kept := p.kept ++ line }
  else
    -- a pane line that is cut here must not be continued by what comes later
    { p with
      state := state
      droppable := if retainDroppable then p.droppable ++ line else p.droppable
      skipUntilNewline := p.skipUntilNewline || (pane && line.getLast? != some newline) }

def partition (s : TerminalStream) (bytes : Bytes) (retainDroppable : Bool) : FilteredOutput :=
  let (state, kept, lines) :=
    if s.control && s.midline then finishLines (splitLines bytes) s [] else (s, [], splitLines bytes)
  let p := lines.foldl (partitionLine retainDroppable) ⟨state, kept, [], false⟩
  { kept := p.kept
    dropped := bytes.length - p.kept.length
    skipUntilNewline := p.skipUntilNewline
    droppable := p.droppable }

def filter (s : TerminalStream) (bytes : Bytes) : FilteredOutput := s.partition bytes false

/-- Up to where the lines are complete and in no open response block. -/
def completeLines : List Bytes → TerminalStream → Nat → Nat → Nat
  | [], _, _, complete => complete
  | line :: lines, observed, offset, complete =>
    let observed := observed.observe line
    let offset := offset + line.length
    completeLines lines observed offset
      (if line.getLast? == some newline && !observed.block then offset else complete)

/-- Control lines before pane output; the incomplete rest stays last. -/
def promoteControl (s : TerminalStream) (bytes : Bytes) : Option Bytes :=
  if !s.control &&
      !(bytes.splitOn newline).any fun line => isTmuxControlToken (lineFirstToken line) then none
  else
    -- the incomplete rest is a barrier: its lines may belong to a block that is still open
    let complete := completeLines (splitLines bytes) s 0 0
    let result := s.partition (bytes.take complete) true
    if result.kept.isEmpty || result.droppable.isEmpty then none
    else some (result.kept ++ result.droppable ++ bytes.drop complete)

end TerminalStream

/-! ### No byte is lost -/

theorem splitLines_flatten (bytes : Bytes) : (splitLines bytes).flatten = bytes := by
  induction bytes with
  | nil => rfl
  | cons b rest ih =>
    rw [splitLines]
    split
    · rw [flatten_cons, ih]
      rfl
    cases hlin : splitLines rest with
    | nil =>
      rw [hlin] at ih
      rw [← ih]
      rfl
    | cons line lines =>
      rw [hlin] at ih
      rw [← ih]
      rfl

namespace TerminalStream

theorem finishLines_flatten (lines : List Bytes) (state : TerminalStream) (kept : Bytes) :
    (finishLines lines state kept).2.1 ++ (finishLines lines state kept).2.2.flatten =
      kept ++ lines.flatten := by
  induction lines generalizing state kept with
  | nil => rfl
  | cons line lines ih =>
    rw [finishLines]
    split
    · rfl
    · rw [ih, flatten_cons, append_assoc]

/-- Retained or kept, every line is there. -/
theorem perm_foldl_partitionLine (lines : List Bytes) (p : Partition) :
    ((lines.foldl (partitionLine true) p).kept ++ (lines.foldl (partitionLine true) p).droppable).Perm
      (p.kept ++ p.droppable ++ lines.flatten) := by
  induction lines generalizing p with
  | nil => simp
  | cons line lines ih =>
    refine (ih _).trans (perm_iff_count.mpr fun byte => ?_)
    unfold partitionLine
    split <;>
    · simp only [if_true, flatten_cons, count_append]
      omega

theorem perm_partition (s : TerminalStream) (bytes : Bytes) :
    ((s.partition bytes true).kept ++ (s.partition bytes true).droppable).Perm bytes := by
  unfold partition
  split
  rename_i state kept lines hspl
  refine (perm_foldl_partitionLine _ _).trans (.of_eq ?_)
  -- whichever lines were finished first, kept and remaining lines are all of the bytes
  rw [append_nil]
  split at hspl
  · have := finishLines_flatten (splitLines bytes) s []
    rwa [hspl, splitLines_flatten] at this
  · obtain ⟨-, rfl, rfl⟩ := hspl
    exact splitLines_flatten bytes

theorem completeLines_le (lines : List Bytes) (observed : TerminalStream) {offset complete : Nat}
    (h : complete ≤ offset) :
    completeLines lines observed offset complete ≤ offset + lines.flatten.length := by
  induction lines generalizing observed offset complete with
  | nil => exact h
  | cons line lines ih =>
    rw [completeLines, flatten_cons, length_append, ← Nat.add_assoc]
    refine ih _ ?_
    split <;> omega

/-- **Promoting control lines rearranges the bytes.** -/
theorem perm_promoteControl {s : TerminalStream} {bytes promoted : Bytes}
    (h : s.promoteControl bytes = some promoted) : promoted.Perm bytes := by
  unfold promoteControl at h
  split at h
  · cases h
  dsimp only at h
  split at h
  · cases h
  cases h
  exact ((perm_partition _ _).append_right _).trans (.of_eq (take_append_drop _ _))

end TerminalStream

end EternalTerminal
