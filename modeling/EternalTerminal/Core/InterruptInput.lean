import EternalTerminal.Core.OutputInterrupt

/-!
# Core — interrupts in client input

`InterruptInput` looks for an interrupt in the bytes a client types: a raw control byte, or a tmux
`send-keys` command that names one.  A command may arrive in pieces, so its line is carried from one
`feed` to the next, up to a length past which the line is given up.

Main result: `feed_chunks`.
-/

namespace EternalTerminal
open List

/-! ### Commands -/

def isInterruptByte (b : UInt8) : Bool := b == 3 || b == 26 || b == 28

def toAsciiLowercase (b : UInt8) : UInt8 := if decide (0x41 ≤ b) && decide (b ≤ 0x5a) then b + 0x20 else b

def eqIgnoreAsciiCase (a b : Bytes) : Bool := a.map toAsciiLowercase == b.map toAsciiLowercase

def splitAsciiWhitespace (line : Bytes) : List Bytes := (line.splitOnP isAsciiWhitespace).filter (!·.isEmpty)

def hexDigit (b : UInt8) : Option Nat :=
  if decide (0x30 ≤ b) && decide (b ≤ 0x39) then some (b.toNat - 0x30)
  else if decide (0x61 ≤ toAsciiLowercase b) && decide (toAsciiLowercase b ≤ 0x66) then
    some ((toAsciiLowercase b).toNat - 0x57)
  else none

/-- `u8::from_str_radix(number, 16)` of one or two characters, which cannot overflow; a plus sign may precede
the digits. -/
def fromStrRadix (number : Bytes) : Option Nat :=
  let digits := match number with
    | 0x2b :: digit :: rest => digit :: rest
    | number => number
  if digits.isEmpty then none
  else digits.foldlM (fun value b => (hexDigit b).map (16 * value + ·)) 0

/-- The keys that send an interrupt. -/
def interruptKeys : List Bytes := ["C-c", "^C", "C-z", "^Z", "C-\\", "C-|"].map ascii

def stripHex (token : Bytes) : Option Bytes :=
  if (ascii "0x").isPrefixOf token || (ascii "0X").isPrefixOf token then some (token.drop 2) else none

/-- One key of the command. -/
def keyRequestsInterrupt (hex : Bool) (token : Bytes) : Bool :=
  let number := stripHex token
  if hex || number.isSome then
    let number := number.getD token
    (number.length == 1 || number.length == 2) && [some 3, some 26, some 28].contains (fromStrRadix number)
  else interruptKeys.any (eqIgnoreAsciiCase token)

/-- The loop over the tokens after the command's name. -/
def tokensRequestInterrupt (hex literal : Bool) : List Bytes → Bool
  | [] => false
  | token :: tokens =>
    if token.head? == some 0x2d then
      let flags := token.tail
      let modes := if flags.contains 0x48 then (true, false) else if flags.contains 0x6c then (false, true)
        else (hex, literal)
      -- `-t`, `-c` and `-N` take the next token as their value
      if flags.any fun flag => flag == 0x74 || flag == 0x63 || flag == 0x4e then
        match tokens with
        | [] => false
        | _ :: tokens => tokensRequestInterrupt modes.1 modes.2 tokens
      else tokensRequestInterrupt modes.1 modes.2 tokens
    else (!literal && keyRequestsInterrupt hex token) || tokensRequestInterrupt hex literal tokens

def commandRequestsInterrupt (bytes : Bytes) : Bool :=
  if (String.fromUTF8? ⟨bytes.toArray⟩).isNone then false
  else match splitAsciiWhitespace bytes with
    | [] => false
    | name :: tokens => (name == ascii "send-keys" || name == ascii "send") && tokensRequestInterrupt false false tokens

/-! ### The input -/

/-- The line so far, and whether it was given up. -/
structure InterruptInput where
  carry : Bytes
  overlong : Bool

namespace InterruptInput

def default : InterruptInput := ⟨[], false⟩

/-- The line so far is a command that requests an interrupt. -/
def requests (s : InterruptInput) : Bool := !s.overlong && commandRequestsInterrupt s.carry

/-- One byte, with whether the call reports an interrupt so far. -/
def feedByte (r : Bool × InterruptInput) (byte : UInt8) : Bool × InterruptInput :=
  let (interrupt, s) := r
  if byte == newline || byte == 0x0d then (interrupt || s.requests, ⟨[], false⟩)
  else if !s.overlong then
    if s.carry.length == 4096 then (interrupt, ⟨[], true⟩) else (interrupt, { s with carry := s.carry ++ [byte] })
  else (interrupt, s)

def feed (s : InterruptInput) (bytes : Bytes) : Bool × InterruptInput :=
  let r := bytes.foldl feedByte (bytes.any isInterruptByte, s)
  (r.1 || r.2.requests, r.2)

/-- The chunks one after another: what each feed reports, and the state after the last. -/
def feedChunks (s : InterruptInput) : List Bytes → List Bool × InterruptInput
  | [] => ([], s)
  | chunk :: chunks =>
    let r := s.feed chunk
    let rs := r.2.feedChunks chunks
    (r.1 :: rs.1, rs.2)

variable (s : InterruptInput)

/-- What is reported so far is kept, and decides nothing else. -/
theorem feedByte_eq (interrupt : Bool) (byte : UInt8) :
    feedByte (interrupt, s) byte = (interrupt || (feedByte (false, s) byte).1, (feedByte (false, s) byte).2) := by
  unfold feedByte
  dsimp only
  repeat' split
  all_goals simp

theorem foldl_feedByte_eq (interrupt : Bool) (bytes : Bytes) :
    bytes.foldl feedByte (interrupt, s) =
      (interrupt || (bytes.foldl feedByte (false, s)).1, (bytes.foldl feedByte (false, s)).2) := by
  induction bytes generalizing interrupt s with
  | nil => simp
  | cons byte bytes ih =>
    rw [foldl_cons, foldl_cons, feedByte_eq, ih, ← Prod.mk.eta (p := feedByte (false, s) byte),
      ih _ (feedByte (false, s) byte).1]
    simp only [Bool.or_assoc]

/-- A feed, with the raw control bytes, the lines that end and the line that is left told apart. -/
theorem feed_eq (bytes : Bytes) :
    s.feed bytes = (bytes.any isInterruptByte || (bytes.foldl feedByte (false, s)).1 ||
      (bytes.foldl feedByte (false, s)).2.requests, (bytes.foldl feedByte (false, s)).2) := by
  rw [feed, foldl_feedByte_eq]

/-- **Two feeds leave the state of one, and what the one reports one of the two does.** -/
theorem feed_append (bytes rest : Bytes) :
    (s.feed (bytes ++ rest)).2 = ((s.feed bytes).2.feed rest).2 ∧
      ((s.feed (bytes ++ rest)).1 = true → (s.feed bytes).1 = true ∨ ((s.feed bytes).2.feed rest).1 = true) := by
  simp only [feed_eq, foldl_append, any_append]
  generalize bytes.foldl feedByte (false, s) = r
  rw [← Prod.mk.eta (p := r), foldl_feedByte_eq]
  refine ⟨rfl, fun h => ?_⟩
  simp only [Bool.or_eq_true] at h ⊢
  tauto

theorem feedChunks_snd (chunks : List Bytes) : (s.feedChunks chunks).2 = (s.feed chunks.flatten).2 := by
  induction chunks generalizing s with
  | nil => rfl
  | cons chunk chunks ih => rw [feedChunks, flatten_cons, (s.feed_append chunk _).1, ← ih]

/-- The last feed looks at the line that is left, so there has to be one. -/
theorem mem_feedChunks_cons (chunk : Bytes) (chunks : List Bytes)
    (h : (s.feed (chunk :: chunks).flatten).1 = true) : true ∈ (s.feedChunks (chunk :: chunks)).1 := by
  induction chunks generalizing s chunk with
  | nil =>
    rw [flatten_singleton] at h
    rw [feedChunks, h]
    exact mem_cons_self
  | cons next chunks ih =>
    rw [feedChunks, mem_cons]
    exact ((s.feed_append chunk _).2 h).imp Eq.symm fun hrest => ih _ _ hrest

/-- **However the input is cut, the state is that of one feed, and an interrupt it holds is reported.** -/
theorem feed_chunks (chunks : List Bytes) :
    (∀ s : InterruptInput, (s.feedChunks chunks).2 = (s.feed chunks.flatten).2) ∧
      ((default.feed chunks.flatten).1 = true → true ∈ (default.feedChunks chunks).1) := by
  refine ⟨fun s => s.feedChunks_snd chunks, fun h => ?_⟩
  cases chunks with
  | nil =>
    cases h
  | cons chunk chunks => exact default.mem_feedChunks_cons chunk chunks h

end InterruptInput
end EternalTerminal
