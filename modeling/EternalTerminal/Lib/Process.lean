import EternalTerminal.Lib.Bytes
import EternalTerminal.Lib.History

/-!
# Lib — two processes over byte channels

A process writes and reads a byte stream, and ends in a value.  A read takes an exact number of
bytes and waits for them; any call may fail, also after a part of its bytes, and the process goes
on with the error it got.  A `Job` is a process that ends in a result or an error.

* `Runs p i o a`: `p` can end in `a` having read `i` and written `o`.
* `Job.ends_bind_iff`: a sequence of jobs ends in a result when its parts do, on parts of the
  bytes; a job that ends in a result had no failing call where errors are passed on.
* `Duplex.run_runs`: two processes joined by a pair of reliable channels; when both have ended, each
  ran on what the other wrote.
* `Duplex.exec`: a schedule without failing calls, to run two processes with.
-/

/-- A process with errors `ε` and end value `α`. -/
inductive Process (ε α : Type) where
  | ret (a : α)
  | send (bytes : Bytes) (next : Except ε Unit → Process ε α)
  | recv (count : Nat) (next : Except ε Bytes → Process ε α)

namespace Process
open List
variable {ε α β : Type}

def bind : Process ε α → (α → Process ε β) → Process ε β
  | .ret a, f => f a
  | .send bytes next, f => .send bytes fun r => (next r).bind f
  | .recv count next, f => .recv count fun r => (next r).bind f

instance : Monad (Process ε) where
  pure := .ret
  bind := bind

/-- `p` can end in `a` having read `i` and written `o`. -/
inductive Runs : Process ε α → Bytes → Bytes → α → Prop where
  | ret (a : α) : Runs (.ret a) [] [] a
  | send {bytes : Bytes} {next : Except ε Unit → Process ε α} {i o : Bytes} {a : α}
      (h : Runs (next (.ok ())) i o a) : Runs (.send bytes next) i (bytes ++ o) a
  | recv {bytes : Bytes} {next : Except ε Bytes → Process ε α} {i o : Bytes} {a : α}
      (h : Runs (next (.ok bytes)) i o a) : Runs (.recv bytes.length next) (bytes ++ i) o a
  | sendFails {bytes part : Bytes} {next : Except ε Unit → Process ε α} {i o : Bytes} {a : α} (e : ε)
      (hp : part <+: bytes) (h : Runs (next (.error e)) i o a) :
      Runs (.send bytes next) i (part ++ o) a
  | recvFails {count : Nat} {part : Bytes} {next : Except ε Bytes → Process ε α} {i o : Bytes} {a : α}
      (e : ε) (hp : part.length ≤ count) (h : Runs (next (.error e)) i o a) :
      Runs (.recv count next) (part ++ i) o a

/-- **A sequence runs when its parts do.** -/
theorem runs_bind_iff {p : Process ε α} {f : α → Process ε β} {i o : Bytes} {b : β} :
    Runs (p >>= f) i o b ↔
      ∃ a i₁ i₂ o₁ o₂, i = i₁ ++ i₂ ∧ o = o₁ ++ o₂ ∧ Runs p i₁ o₁ a ∧ Runs (f a) i₂ o₂ b := by
  show Runs (p.bind f) i o b ↔ _
  constructor
  · intro h
    induction p generalizing i o with
    | ret a => exact ⟨a, [], i, [], o, rfl, rfl, .ret a, h⟩
    | send bytes next ih =>
      cases h with
      | send h =>
        obtain ⟨a, i₁, i₂, o₁, o₂, rfl, rfl, h₁, h₂⟩ := ih _ h
        exact ⟨a, i₁, i₂, bytes ++ o₁, o₂, rfl, (append_assoc _ _ _).symm, .send h₁, h₂⟩
      | sendFails e hp h =>
        obtain ⟨a, i₁, i₂, o₁, o₂, rfl, rfl, h₁, h₂⟩ := ih _ h
        exact ⟨a, i₁, i₂, _, o₂, rfl, (append_assoc _ _ _).symm, .sendFails e hp h₁, h₂⟩
    | recv count next ih =>
      cases h with
      | recv h =>
        obtain ⟨a, i₁, i₂, o₁, o₂, rfl, rfl, h₁, h₂⟩ := ih _ h
        exact ⟨a, _, i₂, o₁, o₂, (append_assoc _ _ _).symm, rfl, .recv h₁, h₂⟩
      | recvFails e hp h =>
        obtain ⟨a, i₁, i₂, o₁, o₂, rfl, rfl, h₁, h₂⟩ := ih _ h
        exact ⟨a, _, i₂, o₁, o₂, (append_assoc _ _ _).symm, rfl, .recvFails e hp h₁, h₂⟩
  · rintro ⟨a, i₁, i₂, o₁, o₂, rfl, rfl, h₁, h₂⟩
    induction h₁ with
    | ret a => exact h₂
    | send _ ih => rw [append_assoc]; exact .send (ih h₂)
    | recv _ ih => rw [append_assoc]; exact .recv (ih h₂)
    | sendFails e hp _ ih => rw [append_assoc]; exact .sendFails e hp (ih h₂)
    | recvFails e hp _ ih => rw [append_assoc]; exact .recvFails e hp (ih h₂)

@[simp] theorem runs_ret_iff {a b : α} {i o : Bytes} :
    Runs (.ret a : Process ε α) i o b ↔ i = [] ∧ o = [] ∧ a = b := by
  constructor
  · intro h; cases h; exact ⟨rfl, rfl, rfl⟩
  · rintro ⟨rfl, rfl, rfl⟩; exact .ret _

@[simp] theorem runs_pure_iff {a b : α} {i o : Bytes} :
    Runs (pure a : Process ε α) i o b ↔ i = [] ∧ o = [] ∧ a = b :=
  runs_ret_iff

end Process

open Process List

/-! ### Jobs -/

/-- A process that ends in a result or an error. -/
abbrev Job (ε α : Type) := ExceptT ε (Process ε) α

namespace Job
variable {ε α β : Type}
variable {i o : Bytes}

def write (bytes : Bytes) : Job ε Unit := .mk (.send bytes .ret)

def readExact (count : Nat) : Job ε Bytes := .mk (.recv count .ret)

/-- A call that moves no bytes, and may fail. -/
def call : Job ε Unit := write []

/-- `x` can end in the result `a` having read `i` and written `o`. -/
def Ends (x : Job ε α) (i o : Bytes) (a : α) : Prop := Runs x.run i o (.ok a)

variable {b : β} {a : α} {f : α → Job ε β} {r : Except ε α} {bytes : Bytes} {u : Unit}

/-- **A sequence ends in a result when its parts do.** -/
theorem ends_bind_iff {x : Job ε α} :
    Ends (x >>= f) i o b ↔
      ∃ a i₁ i₂ o₁ o₂, i = i₁ ++ i₂ ∧ o = o₁ ++ o₂ ∧ Ends x i₁ o₁ a ∧ Ends (f a) i₂ o₂ b := by
  unfold Ends
  rw [ExceptT.run_bind, runs_bind_iff]
  constructor
  · rintro ⟨r, i₁, i₂, o₁, o₂, hi, ho, h₁, h₂⟩
    cases r with
    | error e => cases h₂
    | ok a => exact ⟨a, i₁, i₂, o₁, o₂, hi, ho, h₁, h₂⟩
  · rintro ⟨a, i₁, i₂, o₁, o₂, hi, ho, h₁, h₂⟩
    exact ⟨.ok a, i₁, i₂, o₁, o₂, hi, ho, h₁, h₂⟩

@[simp] theorem ends_pure_iff {b : α} :
    Ends (pure a : Job ε α) i o b ↔ i = [] ∧ o = [] ∧ a = b := by
  show Runs (.ret (.ok a) : Process ε (Except ε α)) i o (.ok b) ↔ _
  rw [runs_ret_iff, Except.ok.injEq]

@[simp] theorem ends_liftExcept_iff :
    Ends (liftM r : Job ε α) i o a ↔ i = [] ∧ o = [] ∧ r = .ok a := by
  show Runs (.ret r : Process ε (Except ε α)) i o (.ok a) ↔ _
  exact runs_ret_iff

@[simp] theorem ends_write_iff :
    Ends (write bytes : Job ε Unit) i o u ↔ i = [] ∧ o = bytes := by
  constructor
  · intro h
    cases h with
    | send h =>
      cases h
      exact ⟨rfl, append_nil _⟩
    | sendFails e hp h => cases h
  · rintro ⟨rfl, rfl⟩
    have h : Ends (write o : Job ε Unit) [] (o ++ []) () := .send (.ret _)
    rwa [append_nil] at h

@[simp] theorem ends_call_iff :
    Ends (call : Job ε Unit) i o u ↔ i = [] ∧ o = [] :=
  ends_write_iff

/-- A pure step moves no bytes. -/
theorem ends_liftExcept_bind_iff :
    Ends ((liftM r : Job ε α) >>= f) i o b ↔ ∃ a, r = .ok a ∧ Ends (f a) i o b := by
  rw [ends_bind_iff]
  constructor
  · rintro ⟨a, i₁, i₂, o₁, o₂, rfl, rfl, h, hf⟩
    obtain ⟨rfl, rfl, hr⟩ := ends_liftExcept_iff.mp h
    exact ⟨a, hr, hf⟩
  · rintro ⟨a, hr, hf⟩
    exact ⟨a, [], i, [], o, rfl, rfl, ends_liftExcept_iff.mpr ⟨rfl, rfl, hr⟩, hf⟩

theorem ends_call_bind_iff {f : Unit → Job ε β} :
    Ends ((call : Job ε Unit) >>= f) i o b ↔ Ends (f ()) i o b := by
  rw [ends_bind_iff]
  constructor
  · rintro ⟨u, i₁, i₂, o₁, o₂, rfl, rfl, h, hf⟩
    obtain ⟨rfl, rfl⟩ := ends_call_iff.mp h
    exact hf
  · intro hf
    exact ⟨(), [], i, [], o, rfl, rfl, ends_call_iff.mpr ⟨rfl, rfl⟩, hf⟩

@[simp] theorem ends_readExact_iff {count : Nat} :
    Ends (readExact count : Job ε Bytes) i o bytes ↔ i = bytes ∧ o = [] ∧ bytes.length = count := by
  constructor
  · intro h
    cases h with
    | recv h =>
      cases h
      exact ⟨append_nil _, rfl, rfl⟩
    | recvFails e hp h => cases h
  · rintro ⟨rfl, rfl, rfl⟩
    have h : Ends (readExact i.length : Job ε Bytes) (i ++ []) [] i := .recv (.ret _)
    rwa [append_nil] at h

end Job

/-! ### Two processes -/

/-- Two processes, and what each has written that the other has not read. -/
structure Duplex (ε α β : Type) where
  left : Process ε α
  right : Process ε β
  toLeft : Bytes
  toRight : Bytes

namespace Duplex
variable {ε α β : Type}

/-- One call of one process, against the bytes it may read (`inp`) and those it has written
(`out`). -/
inductive Call : Process ε α → Bytes → Bytes → Process ε α → Bytes → Bytes → Prop where
  | send (bytes : Bytes) (next : Except ε Unit → Process ε α) (inp out : Bytes) :
      Call (.send bytes next) inp out (next (.ok ())) inp (out ++ bytes)
  | recv (bytes : Bytes) (next : Except ε Bytes → Process ε α) (inp out : Bytes) :
      Call (.recv bytes.length next) (bytes ++ inp) out (next (.ok bytes)) inp out
  | sendFails (bytes part : Bytes) (next : Except ε Unit → Process ε α) (inp out : Bytes) (e : ε)
      (h : part <+: bytes) : Call (.send bytes next) inp out (next (.error e)) inp (out ++ part)
  | recvFails (count : Nat) (part : Bytes) (next : Except ε Bytes → Process ε α) (inp out : Bytes)
      (e : ε) (h : part.length ≤ count) :
      Call (.recv count next) (part ++ inp) out (next (.error e)) inp out

/-- A call of one of the two. -/
inductive Step : Duplex ε α β → Duplex ε α β → Prop where
  | left (q : Process ε β) {p p' : Process ε α} {inp out inp' out' : Bytes}
      (h : Call p inp out p' inp' out') : Step ⟨p, q, inp, out⟩ ⟨p', q, inp', out'⟩
  | right (p : Process ε α) {q q' : Process ε β} {inp out inp' out' : Bytes}
      (h : Call q inp out q' inp' out') : Step ⟨p, q, out, inp⟩ ⟨p, q', out', inp'⟩

/-- `p` is what `p₀` has become after reading `i` and writing `o`. -/
def Continues (p₀ p : Process ε α) (i o : Bytes) : Prop :=
  ∀ i' o' a, Runs p i' o' a → Runs p₀ (i ++ i') (o ++ o') a

variable {p₀ p p' : Process ε α} {s : Duplex ε α β} {q₀ : Process ε β} {a : α} {b : β} {inp out inp' out' : Bytes}

/-- One call reads a front part of the input and appends to the output. -/
theorem Continues.call {i o : Bytes} (h : Continues p₀ p i o) (hc : Call p inp out p' inp' out') :
    ∃ got put, inp = got ++ inp' ∧ out' = out ++ put ∧ Continues p₀ p' (i ++ got) (o ++ put) := by
  cases hc with
  | send bytes next =>
    refine ⟨[], bytes, rfl, rfl, fun i' o' a hr => ?_⟩
    rw [append_nil, append_assoc]
    exact h _ _ _ (.send hr)
  | recv bytes next =>
    refine ⟨bytes, [], rfl, (append_nil _).symm, fun i' o' a hr => ?_⟩
    rw [append_nil, append_assoc]
    exact h _ _ _ (.recv hr)
  | sendFails bytes part next _ _ e hp =>
    refine ⟨[], part, rfl, rfl, fun i' o' a hr => ?_⟩
    rw [append_nil, append_assoc]
    exact h _ _ _ (.sendFails e hp hr)
  | recvFails count part next _ _ e hp =>
    refine ⟨part, [], rfl, (append_nil _).symm, fun i' o' a hr => ?_⟩
    rw [append_nil, append_assoc]
    exact h _ _ _ (.recvFails e hp hr)

/-- What the two processes have read and written so far fits together. -/
structure Joined (p₀ : Process ε α) (q₀ : Process ε β) (s : Duplex ε α β)
    (iL oL iR oR : Bytes) : Prop where
  left : Continues p₀ s.left iL oL
  right : Continues q₀ s.right iR oR
  toLeft : oR = iL ++ s.toLeft
  toRight : oL = iR ++ s.toRight

theorem Joined.step {t : Duplex ε α β} {iL oL iR oR : Bytes} (h : Joined p₀ q₀ s iL oL iR oR) (hs : Step s t) :
    ∃ iL oL iR oR, Joined p₀ q₀ t iL oL iR oR := by
  obtain ⟨hl, hr, htl, htr⟩ := h
  cases hs with
  | left q hc =>
    obtain ⟨got, put, rfl, rfl, hl'⟩ := hl.call hc
    exact ⟨_, _, iR, oR, hl', hr, by rw [htl, append_assoc], by rw [htr, append_assoc]⟩
  | right p hc =>
    obtain ⟨got, put, rfl, rfl, hr'⟩ := hr.call hc
    exact ⟨iL, oL, _, _, hl, hr', by rw [htl, append_assoc], by rw [htr, append_assoc]⟩

section
variable (hrun : Relation.ReflTransGen Step ⟨p₀, q₀, [], []⟩ s)
include hrun

/-- What the two processes of a run have read and written fits together. -/
theorem run_joined : ∃ iL oL iR oR, Joined p₀ q₀ s iL oL iR oR := by
  have hinit : Joined p₀ q₀ ⟨p₀, q₀, [], []⟩ [] [] [] [] :=
    ⟨fun i' o' a hr => hr, fun i' o' a hr => hr, rfl, rfl⟩
  refine reach_invariant (P := fun s => ∃ iL oL iR oR, Joined p₀ q₀ s iL oL iR oR) hrun
    ⟨_, _, _, _, hinit⟩ ?_
  rintro a b ⟨_, _, _, _, h⟩ hs
  exact h.step hs

/-- **A process that has ended** ran from its start to its end value. -/
theorem run_left (ha : s.left = .ret a) : ∃ i o, Runs p₀ i o a := by
  obtain ⟨iL, oL, _, _, h⟩ := run_joined hrun
  exact ⟨_, _, h.left [] [] a (by rw [ha]; exact .ret a)⟩

theorem run_right (hb : s.right = .ret b) : ∃ i o, Runs q₀ i o b := by
  obtain ⟨_, _, iR, oR, h⟩ := run_joined hrun
  exact ⟨_, _, h.right [] [] b (by rw [hb]; exact .ret b)⟩

/-- **When both processes have ended**, each ran on a front part of what the other wrote; what is
left of it is still in the channel. -/
theorem run_runs (ha : s.left = .ret a) (hb : s.right = .ret b) :
    ∃ iL oL iR oR, Runs p₀ iL oL a ∧ Runs q₀ iR oR b ∧ oR = iL ++ s.toLeft ∧ oL = iR ++ s.toRight := by
  obtain ⟨iL, oL, iR, oR, h⟩ := run_joined hrun
  have hl := h.left [] [] a (by rw [ha]; exact .ret a)
  have hr := h.right [] [] b (by rw [hb]; exact .ret b)
  rw [append_nil, append_nil] at hl hr
  exact ⟨iL, oL, iR, oR, hl, hr, h.toLeft, h.toRight⟩

end

/-! ### A schedule -/

/-- One call that does not fail, when the process has one and its bytes are there. -/
def advance : Process ε α → Bytes → Bytes → Option (Process ε α × Bytes × Bytes)
  | .ret _, _, _ => none
  | .send bytes next, inp, out => some (next (.ok ()), inp, out ++ bytes)
  | .recv count next, inp, out =>
    if count ≤ inp.length then some (next (.ok (inp.take count)), inp.drop count, out) else none

theorem call_of_advance (h : advance p inp out = some (p', inp', out')) : Call p inp out p' inp' out' := by
  cases p with
  | ret a => cases h
  | send bytes next =>
    cases h
    exact .send bytes next _ _
  | recv count next =>
    rw [advance] at h
    split at h
    next hle =>
      cases h
      have hc := Call.recv (inp.take count) next (inp.drop count) out
      rwa [take_append_drop, length_take, Nat.min_eq_left hle] at hc
    · cases h

/-- `fuel` calls, the left process before the right one. -/
def exec : Nat → Duplex ε α β → Duplex ε α β
  | 0, s => s
  | fuel + 1, s =>
    match advance s.left s.toLeft s.toRight with
    | some (left, toLeft, toRight) => exec fuel ⟨left, s.right, toLeft, toRight⟩
    | none =>
      match advance s.right s.toRight s.toLeft with
      | some (right, toRight, toLeft) => exec fuel ⟨s.left, right, toLeft, toRight⟩
      | none => s

theorem exec_reaches (fuel : Nat) (s : Duplex ε α β) : Relation.ReflTransGen Step s (exec fuel s) := by
  induction fuel generalizing s with
  | zero => exact .refl
  | succ fuel ih =>
    rw [exec]
    split
    next left toLeft toRight h =>
      exact .head (.left s.right (call_of_advance h)) (ih _)
    split
    next right toRight toLeft h =>
      exact .head (.right s.left (call_of_advance h)) (ih _)
    · exact .refl

/-- The end values, once both processes have ended. -/
def ended (s : Duplex ε α β) : Option (α × β) :=
  match s.left, s.right with
  | .ret a, .ret b => some (a, b)
  | _, _ => none

theorem ended_eq_some (h : s.ended = some (a, b)) :
    s.left = .ret a ∧ s.right = .ret b := by
  obtain ⟨p, q, toLeft, toRight⟩ := s
  cases p <;> cases q <;> cases h
  exact ⟨rfl, rfl⟩

/-- A run in which both jobs end in results that meet `p`. -/
theorem exec_both_ok (start : Duplex ε (Except ε Unit × α) (Except ε Unit × β)) (fuel : Nat)
    {p : α → β → Prop} [∀ a b, Decidable (p a b)]
    (h : (start.exec fuel).ended.any fun r =>
      r.1.1.toOption.isSome && r.2.1.toOption.isSome && decide (p r.1.2 r.2.2)) :
    ∃ a b, (start.exec fuel).left = .ret (.ok (), a) ∧ (start.exec fuel).right = .ret (.ok (), b) ∧
      p a b := by
  cases hend : (start.exec fuel).ended with
  | none => rw [hend] at h; cases h
  | some r =>
    obtain ⟨⟨ra, a⟩, rb, b⟩ := r
    obtain ⟨hl, hr⟩ := ended_eq_some hend
    rw [hend, Option.any_some, Bool.and_eq_true, Bool.and_eq_true, decide_eq_true_eq] at h
    obtain ⟨⟨ha, hb⟩, hp⟩ := h
    cases ra with
    | error e => cases ha
    | ok u =>
      cases rb with
      | error e => cases hb
      | ok u => exact ⟨a, b, hl, hr, hp⟩

end Duplex
