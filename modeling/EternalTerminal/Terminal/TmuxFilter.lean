import EternalTerminal.Core.OutputInterrupt

/-!
# Terminal — the tmux control-mode filter

`terminal_tmux_filter.rs`.  A leading device control string puts the output of the PTY in tmux control mode.  From then
on only the lines of the protocol pass: notifications, and what stands between a `%begin` line and its `%end` or
`%error`.  Anything else, as a `wall` message, is dropped.  `%exit` or the string terminator ends control mode.

The filter keeps at most the first bytes of a line between chunks.  `apply` looks at a chunk twice before its loop:
plain output is passed on as it is, and a `%` or an escape at its start ends a line that is being dropped.  The first is no
exception to the loop (`apply_eq_steps`), and a chunk can be cut anywhere (`apply_append`).
-/

namespace EternalTerminal
open List

/-- `ST`, the string terminator. -/
def tmuxSt : Bytes := [escape, backslash]

def carriageReturn : UInt8 := 0x0d

def isAsciiAlphabetic (b : UInt8) : Bool := (65 ≤ b && b ≤ 90) || (97 ≤ b && b ≤ 122)

def isNotification : Bytes → Bool
  | first :: second :: _ => first == percent && isAsciiAlphabetic second
  | _ => false

/-- What the end of a line that passes does. -/
inductive AfterLine where
  | none
  | begins
  | ends
  | exits
  deriving DecidableEq

/-- What the filter knows of the line. -/
inductive FilterLine where
  /-- The first bytes of the line do not say yet what it is (`Line::Prefix`). -/
  | linePrefix
  | pass (after : AfterLine)
  | drop
  deriving DecidableEq

def beginToken : Bytes := ascii "%begin"
def endToken : Bytes := ascii "%end"
def errorToken : Bytes := ascii "%error"
def exitToken : Bytes := ascii "%exit"

def afterToken (token : Bytes) : AfterLine :=
  if token = beginToken then .begins
  else if token = endToken ∨ token = errorToken then .ends
  else if token = exitToken then .exits
  else .none

def responseTokens : List Bytes := [beginToken, endToken, errorToken, exitToken]

/-- `terminal_tmux_filter.rs`: the mode and the line the filter is in. -/
structure TmuxCcFilter where
  control : Bool
  response : Bool
  introducerLine : Bool
  lineStart : Bool
  line : FilterLine
  escape : Bool
  /-- The start of a control string, or the first bytes of a line that is not decided. -/
  pending : Bytes
  deriving DecidableEq

namespace TmuxCcFilter

def default : TmuxCcFilter where
  control := false
  response := false
  introducerLine := false
  lineStart := true
  line := .linePrefix
  escape := false
  pending := []

/-- Every field is set, so nothing of the old state is left. -/
def leaveControl (_ : TmuxCcFilter) : TmuxCcFilter := default

/-- A byte outside control mode. -/
def outside (f : TmuxCcFilter) (byte : UInt8) : Bytes × TmuxCcFilter :=
  if f.lineStart && (!f.pending.isEmpty || byte == EternalTerminal.escape) then
    let pending := f.pending ++ [byte]
    if pending = tmuxDcs then (tmuxDcs, { f with pending := [], control := true, introducerLine := true })
    else if pending.isPrefixOf tmuxDcs then ([], { f with pending })
    else (pending, { f with pending := [], lineStart := byte == newline })
  else ([byte], { f with lineStart := byte == newline })

/-- The end of the loop's body: after a newline the line has its effect and the next one starts. -/
def endByte (f : TmuxCcFilter) (byte : UInt8) : TmuxCcFilter :=
  let f := { f with escape := byte == EternalTerminal.escape }
  if byte = newline then
    let f := match f.line with
      | .pass .begins => { f with response := true }
      | .pass .ends => { f with response := false }
      | .pass .exits => f.leaveControl
      | _ => f
    { f with line := .linePrefix, introducerLine := false, lineStart := true }
  else f

/-- What a line that starts with `pending` is; `none` when that is still open. -/
def lineOf (f : TmuxCcFilter) (pending : Bytes) (byte : UInt8) : Option FilterLine :=
  if isNotification pending then
    if isAsciiWhitespace byte then some (.pass (afterToken pending.dropLast))
    else if responseTokens.any fun token => pending.isPrefixOf token then none
    else some (.pass .none)
  else if f.response then some (.pass .none)
  else if f.introducerLine && pending == [carriageReturn] then none
  else if f.introducerLine && (pending == [newline] || pending == [carriageReturn, newline]) then some (.pass .none)
  else some .drop

/-- A byte of a line that is not decided. -/
def atPrefix (f : TmuxCcFilter) (byte : UInt8) : Bytes × TmuxCcFilter :=
  let pending := f.pending ++ [byte]
  if !f.response && pending == tmuxSt then (tmuxSt, f.leaveControl)
  else if pending.isPrefixOf tmuxSt || pending == [percent] then ([], { f with pending })
  else match f.lineOf pending byte with
    | none => ([], { f with pending })
    | some (.pass after) => (pending, endByte { f with line := .pass after, pending := [] } byte)
    | some line => ([], endByte { f with line, pending := [] } byte)

def passing (f : TmuxCcFilter) (byte : UInt8) : Bytes × TmuxCcFilter :=
  if !f.response && f.escape && byte == backslash then ([byte], f.leaveControl) else ([byte], f.endByte byte)

def dropping (f : TmuxCcFilter) (byte : UInt8) : Bytes × TmuxCcFilter :=
  if f.escape && byte == backslash then (tmuxSt, f.leaveControl) else ([], f.endByte byte)

/-- The body of the loop. -/
def step (f : TmuxCcFilter) (byte : UInt8) : Bytes × TmuxCcFilter :=
  if !f.control then f.outside byte
  else match f.line with
    | .linePrefix => f.atPrefix byte
    | .pass _ => f.passing byte
    | .drop => f.dropping byte

/-- The loop over the bytes of a chunk. -/
def steps : TmuxCcFilter → Bytes → Bytes × TmuxCcFilter
  | f, [] => ([], f)
  | f, byte :: rest =>
    let r := f.step byte
    let t := r.2.steps rest
    (r.1 ++ t.1, t.2)

/-- Plain output, with nothing to look at. -/
def isPlain (f : TmuxCcFilter) (chunk : Bytes) : Bool :=
  !f.control && f.pending.isEmpty && !chunk.contains EternalTerminal.escape

def afterPlain (f : TmuxCcFilter) (chunk : Bytes) : TmuxCcFilter :=
  match chunk.getLast? with
  | some last => { f with lineStart := last == newline }
  | none => f

/-- A `wall` write can end without a newline before tmux's next write. -/
def atChunk (f : TmuxCcFilter) (chunk : Bytes) : TmuxCcFilter :=
  if f.control && !f.response && f.line == .drop &&
      (chunk.head? == some percent || chunk.head? == some EternalTerminal.escape) then
    { f with line := .linePrefix, escape := false }
  else f

def apply (f : TmuxCcFilter) (chunk : Bytes) : Bytes × TmuxCcFilter :=
  if f.isPlain chunk then (chunk, f.afterPlain chunk) else (f.atChunk chunk).steps chunk

/-- The output, `none` when it is the chunk itself. -/
def applySlice (f : TmuxCcFilter) (chunk : Bytes) : Option Bytes × TmuxCcFilter :=
  if f.isPlain chunk then (none, f.afterPlain chunk) else (some (f.apply chunk).1, (f.apply chunk).2)

def finish (f : TmuxCcFilter) : Bytes × TmuxCcFilter :=
  if !f.control || f.response || isNotification f.pending then (f.pending, { f with pending := [] })
  else ([], { f with pending := [] })

/-- The chunks one after the other. -/
def applyAll : TmuxCcFilter → List Bytes → Bytes × TmuxCcFilter
  | f, [] => ([], f)
  | f, chunk :: chunks =>
    let r := f.apply chunk
    let t := r.2.applyAll chunks
    (r.1 ++ t.1, t.2)

/-! ### The loop -/

variable (f : TmuxCcFilter)

@[simp] theorem steps_nil : f.steps [] = ([], f) := rfl

theorem steps_cons (byte : UInt8) (rest : Bytes) :
    f.steps (byte :: rest) = ((f.step byte).1 ++ ((f.step byte).2.steps rest).1, ((f.step byte).2.steps rest).2) := rfl

theorem steps_append (a b : Bytes) :
    f.steps (a ++ b) = ((f.steps a).1 ++ ((f.steps a).2.steps b).1, ((f.steps a).2.steps b).2) := by
  induction a generalizing f with
  | nil => rfl
  | cons byte rest ih => rw [cons_append, steps_cons, ih, steps_cons, append_assoc]

/-- Plain output passes through the loop as it is. -/
theorem steps_of_plain {chunk : Bytes} (hctl : f.control = false) (hpend : f.pending = [])
    (hchunk : EternalTerminal.escape ∉ chunk) : f.steps chunk = (chunk, f.afterPlain chunk) := by
  induction chunk generalizing f with
  | nil => rfl
  | cons byte rest ih =>
    have hbyte : byte ≠ EternalTerminal.escape := fun h => hchunk (h ▸ mem_cons_self)
    have hrest : EternalTerminal.escape ∉ rest := fun h => hchunk (mem_cons_of_mem _ h)
    have htail := ih { f with lineStart := byte == newline } hctl hpend hrest
    have hstep : f.step byte = ([byte], { f with lineStart := byte == newline }) := by
      simp [step, outside, hctl, hpend, hbyte]
    rw [steps_cons, hstep, htail]
    cases rest with
    | nil => rfl
    | cons next rest => simp [afterPlain, List.getLast?_cons]

theorem atChunk_of_plain {chunk : Bytes} (hctl : f.control = false) : f.atChunk chunk = f := by
  simp [atChunk, hctl]

theorem apply_eq_steps (chunk : Bytes) : f.apply chunk = (f.atChunk chunk).steps chunk := by
  rw [apply]
  split
  next hpl =>
    obtain ⟨⟨hctl, hpend⟩, hchunk⟩ : (f.control = false ∧ f.pending = []) ∧ _ ∉ chunk := by simpa [isPlain] using hpl
    rw [atChunk_of_plain f hctl, steps_of_plain f hctl hpend hchunk]
  · rfl

/-- The loop goes on from the state that the front of the chunk leaves. -/
theorem apply_append {a : Bytes} (b : Bytes) (ha : a ≠ []) :
    f.apply (a ++ b) = ((f.apply a).1 ++ ((f.apply a).2.steps b).1, ((f.apply a).2.steps b).2) := by
  have hhead : (a ++ b).head? = a.head? := List.head?_append_of_ne_nil a ha
  have hstart : f.atChunk (a ++ b) = f.atChunk a := by rw [atChunk, atChunk, hhead]
  rw [apply_eq_steps, apply_eq_steps, hstart, steps_append]

theorem applySlice_eq (chunk : Bytes) :
    ((f.applySlice chunk).1.getD chunk, (f.applySlice chunk).2) = f.apply chunk := by
  rw [applySlice, apply]
  split <;> rfl

end TmuxCcFilter

end EternalTerminal
