import Mathlib.Tactic

/-!
# Lib — streams of frames

A stream that carries items, each as a frame.  A frame that is cut short stands at the end of the stream; the items
of a stream are those whose frames are whole.

* `Frames.split`: the items at the front of a stream, and what is left, with a reader of one frame.
* `Frames.Carries`: a stream is the frames of its items and at most one frame that is cut short.
* `Carries.split_eq`: the reader finds just these items.
-/

namespace Frames
open List

variable {α β : Type}

/-- Nothing, or the start of a frame that is not the whole of it. -/
def CutShort (frame : α → List β) (rest : List β) : Prop :=
  rest = [] ∨ ∃ item more, more ≠ [] ∧ frame item = rest ++ more

/-- The whole frames at the front of the stream, at most `fuel`, and what follows them. -/
def splitFrom (unframe : List β → Option (α × List β)) : Nat → List β → List α × List β
  | 0, stream => ([], stream)
  | fuel + 1, stream =>
    match unframe stream with
    | none => ([], stream)
    | some (item, rest) =>
      let r := splitFrom unframe fuel rest
      (item :: r.1, r.2)

/-- A stream has no more frames than entries. -/
def split (unframe : List β → Option (α × List β)) (stream : List β) : List α × List β :=
  splitFrom unframe stream.length stream

/-- The stream is the frames of the items, and `rest`. -/
structure Carries (frame : α → List β) (valid : α → Prop) (stream : List β) (items : List α) (rest : List β) :
    Prop where
  eq : stream = items.flatMap frame ++ rest
  valid : ∀ item ∈ items, valid item

namespace Carries
variable {frame : α → List β} {valid : α → Prop} {stream rest : List β} {items : List α}

theorem empty (frame : α → List β) (valid : α → Prop) : Carries frame valid [] [] [] := ⟨rfl, nofun⟩

/-- More of the frame that is being written. -/
theorem extend (h : Carries frame valid stream items rest) (more : List β) :
    Carries frame valid (stream ++ more) items (rest ++ more) :=
  ⟨by rw [h.eq, append_assoc], h.valid⟩

/-- The last frame is whole. -/
theorem close {item : α} (h : Carries frame valid stream items (frame item)) (hitem : valid item) :
    Carries frame valid stream (items ++ [item]) [] where
  eq := by rw [h.eq, flatMap_append, flatMap_singleton, append_nil]
  valid := forall_mem_append.mpr ⟨h.valid, forall_mem_singleton.mpr hitem⟩

variable {unframe : List β → Option (α × List β)}

theorem splitFrom_eq (hrds : ∀ item more, valid item → unframe (frame item ++ more) = some (item, more))
    (hrest : unframe rest = none) (hvd : ∀ item ∈ items, valid item) {fuel : Nat} (hfuel : items.length ≤ fuel) :
    splitFrom unframe fuel (items.flatMap frame ++ rest) = (items, rest) := by
  induction items generalizing fuel with
  | nil =>
    cases fuel with
    | zero => rfl
    | succ fuel => simp only [flatMap_nil, nil_append, splitFrom, hrest]
  | cons item items ih =>
    obtain ⟨fuel, rfl⟩ : ∃ n, fuel = n + 1 := ⟨fuel - 1, by rw [length_cons] at hfuel; omega⟩
    obtain ⟨hitem, hit⟩ := forall_mem_cons.mp hvd
    rw [flatMap_cons, append_assoc, splitFrom, hrds _ _ hitem]
    simp only [ih hit (Nat.le_of_succ_le_succ hfuel)]

/-- **A reader of one frame splits the stream.**  It has to read back a whole frame, whatever follows it, and to
see that what is left is not one. -/
theorem split_eq (h : Carries frame valid stream items rest)
    (hrds : ∀ item more, valid item → unframe (frame item ++ more) = some (item, more))
    (hfr : ∀ item, frame item ≠ []) (hrest : unframe rest = none) : split unframe stream = (items, rest) := by
  have hlen : items.length ≤ (items.flatMap frame ++ rest).length := by
    have hle := length_le_sum_of_one_le (items.map fun item => (frame item).length) fun n hn => by
      obtain ⟨item, -, rfl⟩ := mem_map.mp hn
      exact length_pos_of_ne_nil (hfr item)
    rw [length_map] at hle
    rw [length_append, length_flatMap]
    omega
  rw [split, h.eq]
  exact splitFrom_eq hrds hrest h.valid hlen

end Carries

end Frames
