import EternalTerminal.Net.SocketIo

/-!
# Net — an agent's replies in chunks

How the agent's output is cut into chunks does not matter: what the chunks leave, one after the other, is the output
without its first replies (`consume_strips`).
-/

namespace EternalTerminal
open Bytes List

/-- The stream is `n` messages and `rest`. -/
def Messages : Nat → Bytes → Bytes → Prop
  | 0, stream, rest => stream = rest
  | n + 1, stream, rest => ∃ message more, AgentMessage message ∧ stream = message ++ more ∧ Messages n more rest

/-! ### The replies of a stream -/

variable {n : Nat} {stream rest : Bytes}

theorem InvalidLength.append (h : InvalidLength stream) (more : Bytes) : InvalidLength (stream ++ more) := by
  obtain ⟨hfour, hlen⟩ := h
  rw [InvalidLength, take_append_of_le_length hfour, length_append]
  exact ⟨by omega, hlen⟩

/-- What is skipped of a stream does not depend on when it arrives. -/
theorem skipReplies_append (n : Nat) (stream more : Bytes) :
    skipReplies n (stream ++ more) = (skipReplies n stream).bind fun r => skipReplies r.1 (r.2 ++ more) := by
  induction n generalizing stream with
  | zero => rfl
  | succ n ih =>
    rcases skipReplies_cases n stream with ⟨message, after, hmsg, rfl⟩ | hinv | ⟨-, hnone⟩
    · rw [append_assoc, skipReplies_message hmsg, skipReplies_message hmsg, ih]
    · rw [skipReplies_invalid n hinv, skipReplies_invalid n (hinv.append more), Option.bind_none]
    · rw [hnone, Option.bind_some]

theorem skipReplies_eq_zero_iff : skipReplies n stream = some (0, rest) ↔ Messages n stream rest := by
  induction n generalizing stream with
  | zero => simp [skipReplies, Messages]
  | succ n ih =>
    constructor
    · intro h
      rcases skipReplies_cases n stream with ⟨message, after, hmsg, rfl⟩ | hinv | ⟨-, hnone⟩
      · rw [skipReplies_message hmsg] at h
        exact ⟨message, after, hmsg, rfl, ih.mp h⟩
      · rw [skipReplies_invalid n hinv] at h
        cases h
      · rw [hnone] at h
        cases h
    · rintro ⟨message, after, hmsg, rfl, hrest⟩
      rw [skipReplies_message hmsg]
      exact ih.mpr hrest

theorem skipReplies_eq_none_iff :
    skipReplies n stream = none ↔ ∃ k < n, ∃ rest, Messages k stream rest ∧ InvalidLength rest := by
  induction n generalizing stream with
  | zero => simp [skipReplies]
  | succ n ih =>
    constructor
    · intro h
      rcases skipReplies_cases n stream with ⟨message, after, hmsg, rfl⟩ | hinv | ⟨-, hnone⟩
      · rw [skipReplies_message hmsg] at h
        obtain ⟨k, hk, rest, hrest, hbad⟩ := ih.mp h
        exact ⟨k + 1, by omega, rest, ⟨message, after, hmsg, rfl, hrest⟩, hbad⟩
      · exact ⟨0, Nat.succ_pos n, stream, rfl, hinv⟩
      · rw [hnone] at h
        cases h
    · rintro ⟨k, hk, rest, hrest, hbad⟩
      cases k with
      | zero =>
        cases hrest
        exact skipReplies_invalid n hbad
      | succ k =>
        obtain ⟨message, after, hmsg, rfl, hrest⟩ := hrest
        rw [skipReplies_message hmsg]
        exact ih.mpr ⟨k, by omega, rest, hrest, hbad⟩

/-! ### A run of chunks -/

namespace AgentSessionBindReplies
variable {r : AgentSessionBindReplies}

/-- One call after the other, until one fails. -/
def consumeAll (r : AgentSessionBindReplies) : List Bytes → Option (List Bytes × AgentSessionBindReplies)
  | [] => some ([], r)
  | chunk :: chunks => do
    let (result, r) ← r.consume chunk
    let (results, r) ← r.consumeAll chunks
    return (result :: results, r)

/-- The replies that are still expected. -/
def left (r : AgentSessionBindReplies) : Nat := r.bindCount - r.repliesSeen

/-- What a stream leaves, with replies still expected in front of it: nothing before they are all there. -/
def remains (left : Nat) (stream : Bytes) : Option Bytes :=
  (skipReplies left stream).map fun r => if r.1 = 0 then r.2 else []

/-- What is pending waits for more. -/
def Waits (r : AgentSessionBindReplies) : Prop :=
  skipReplies r.left r.pending = some (r.left, r.pending) ∧ (r.left = 0 → r.pending = [])

/-- What was left over once is left over again. -/
theorem skipReplies_again {k : Nat} (h : skipReplies n stream = some (k, rest)) : skipReplies k rest = some (k, rest) := by
  have happ := skipReplies_append n stream []
  rwa [append_nil, h, Option.bind_some, append_nil, eq_comm] at happ

theorem waits_new (n : Nat) : (new n).Waits := by
  cases n <;> exact ⟨rfl, fun _ => rfl⟩

/-- A call fails with what is invalid, and otherwise takes off the replies that are whole. -/
theorem consume_cases (h : r.Waits) (chunk : Bytes) :
    (skipReplies r.left (r.pending ++ chunk) = none ∧ r.consume chunk = none) ∨
      ∃ result r', r.consume chunk = some (result, r') ∧ r'.Waits ∧ (r'.left ≠ 0 → result = []) ∧
        skipReplies r.left (r.pending ++ chunk) = some (r'.left, result ++ r'.pending) := by
  unfold consume
  split
  next hdone =>
    have hleft : r.left = 0 := by rw [left, hdone, Nat.sub_self]
    refine .inr ⟨chunk, r, rfl, h, fun hne => absurd hleft hne, ?_⟩
    rw [hleft, h.2 hleft, append_nil]
    rfl
  split
  next hskip => exact .inl ⟨hskip, rfl⟩
  next rest hskip =>
    have hzero : r.bindCount - r.bindCount = 0 := Nat.sub_self _
    exact .inr ⟨rest, _, rfl, ⟨by rw [left, hzero]; rfl, fun _ => rfl⟩, fun hne => absurd hzero hne,
      by rw [left, left, hskip, hzero, append_nil]⟩
  next k rest hskip =>
    have hle : k + 1 ≤ r.left := (skipReplies_spec hskip).1
    have hleft : r.bindCount - (r.bindCount - (k + 1)) = k + 1 := Nat.sub_sub_self (hle.trans (Nat.sub_le _ _))
    exact .inr ⟨[], _, rfl, ⟨by rw [left, hleft]; exact skipReplies_again hskip,
        fun hzero => by cases hleft.symm.trans hzero⟩,
      fun _ => rfl, hskip.trans (by rw [left, hleft, nil_append])⟩

theorem consumeAll_eq (chunks : List Bytes) (h : r.Waits) :
    (r.consumeAll chunks).map (·.1.flatten) = remains r.left (r.pending ++ chunks.flatten) := by
  induction chunks generalizing r with
  | nil =>
    rw [flatten_nil, append_nil, remains, h.1, consumeAll]
    by_cases hzero : r.left = 0 <;> simp [hzero, h.2]
  | cons chunk chunks ih =>
    rw [flatten_cons, ← append_assoc, remains, skipReplies_append, consumeAll]
    rcases consume_cases h chunk with ⟨hskip, hnone⟩ | ⟨result, r', hsome, hr', hres, hskip⟩
    · rw [hskip, hnone]
      rfl
    · have hrest := ih hr'
      rw [hskip, hsome, Option.bind_some]
      by_cases hzero : r'.left = 0
      · rw [hzero, hr'.2 hzero] at hrest ⊢
        obtain ⟨results, hresults, hflat⟩ := Option.map_eq_some_iff.mp hrest
        simp [hresults, skipReplies, hflat]
      · cases hresults : r'.consumeAll chunks <;> simp_all [remains]

theorem length_consumeAll_le {chunks results : List Bytes} {r' : AgentSessionBindReplies}
    (h : r.consumeAll chunks = some (results, r')) :
    Forall₂ (fun result chunk => result.length ≤ chunk.length) results chunks := by
  induction chunks generalizing r results with
  | nil =>
    cases h
    exact .nil
  | cons chunk chunks ih =>
    obtain ⟨⟨result, r₁⟩, hone, h⟩ := Option.bind_eq_some_iff.mp h
    obtain ⟨⟨results, r₂⟩, hall, h⟩ := Option.bind_eq_some_iff.mp h
    cases h
    exact .cons (length_consume_le hone) (ih hall)

/-- **The replies to `n` binds are taken off the agent's output**, however it is cut into chunks.  A chunk fails exactly
when one of the first `n` messages has an invalid length; otherwise the chunks leave the stream without those messages,
nothing before they are all there, and no chunk leaves more than it has. -/
theorem consume_strips (n : Nat) (chunks : List Bytes) :
    ((new n).consumeAll chunks = none ↔ ∃ k < n, ∃ rest, Messages k chunks.flatten rest ∧ InvalidLength rest) ∧
    ∀ results r, (new n).consumeAll chunks = some (results, r) →
      Forall₂ (fun result chunk => result.length ≤ chunk.length) results chunks ∧
      (∀ rest, Messages n chunks.flatten rest → results.flatten = rest) ∧
      ((∀ rest, ¬ Messages n chunks.flatten rest) → results.flatten = []) := by
  have hall := consumeAll_eq chunks (waits_new n)
  change _ = remains n chunks.flatten at hall
  refine ⟨?_, fun results r hsome => ⟨length_consumeAll_le hsome, fun rest hrest => ?_, fun hnone => ?_⟩⟩
  · rw [← skipReplies_eq_none_iff, ← Option.map_eq_none_iff, hall, remains, Option.map_eq_none_iff]
  · rw [hsome, remains, skipReplies_eq_zero_iff.mpr hrest] at hall
    exact Option.some.inj hall
  · rw [hsome, remains] at hall
    obtain ⟨⟨left, rest⟩, hskip, hflat⟩ := Option.map_eq_some_iff.mp hall.symm
    cases left with
    | zero => exact absurd (skipReplies_eq_zero_iff.mp hskip) (hnone rest)
    | succ left => exact hflat.symm

end AgentSessionBindReplies

end EternalTerminal
