import Mathlib.Tactic

/-!
# Lib — a thread among others

A thread runs a program that calls operations on a state it shares with others; a call may have several
answers, or none as long as it blocks, and between two calls the others may change the state.  What they can
do there is a preorder on states, the *rely*.

`Meets inv post p s`: from the state `s`, whatever the others do, `p` keeps `inv` at every moment of its run
and ends with `post`.  It composes (`Meets.bind`), it goes on holding when the others move (`Meets.rely`)
and when a call is answered (`Meets.answer`).
-/

/-- It ends in a value, or calls an operation and goes on with the answer. -/
inductive Program (Op : Type) (Res : Op → Type) (α : Type) where
  | ret (a : α)
  | call (op : Op) (next : Res op → Program Op Res α)

/-- What a call may answer, with the state it leaves, and what the other threads may do. -/
structure World (Op : Type) (Res : Op → Type) (S : Type) where
  answers : (op : Op) → S → List (Res op × S)
  rely : S → S → Prop
  refl : ∀ s, rely s s
  trans : ∀ {s t u}, rely s t → rely t u → rely s u

namespace Program
variable {Op : Type} {Res : Op → Type} {S α β : Type}

def bind : Program Op Res α → (α → Program Op Res β) → Program Op Res β
  | .ret a, f => f a
  | .call op next, f => .call op fun r => (next r).bind f

section Meets
variable (world : World Op Res S) (inv : S → Prop) (post : α → S → Prop)

/-- From `s` the program keeps `inv` and ends with `post`. -/
def Meets : Program Op Res α → S → Prop
  | .ret a, s => inv s ∧ post a s
  | .call op next, s =>
    inv s ∧ ∀ t, world.rely s t → ∀ r ∈ world.answers op t, Meets (next r.1) r.2

end Meets

variable {world : World Op Res S} {inv inv' : S → Prop} {post post' : α → S → Prop}
variable {s : S} {p : Program Op Res α}

theorem Meets.holds (h : p.Meets world inv post s) : inv s := by
  cases p with
  | ret a => exact h.1
  | call op next => exact h.1

theorem Meets.mono (h : p.Meets world inv post s)
    (hinv : ∀ s, inv s → inv' s) (hpost : ∀ a s, inv s → post a s → post' a s) :
    p.Meets world inv' post' s := by
  induction p generalizing s with
  | ret a => exact ⟨hinv s h.1, hpost a s h.1 h.2⟩
  | call op next ih => exact ⟨hinv s h.1, fun t ht r hr => ih r.1 (h.2 t ht r hr)⟩

/-- **Sequencing**: what the first part ends with lets the second one begin. -/
theorem Meets.bind {f : α → Program Op Res β} {post : β → S → Prop}
    (h : p.Meets world inv (fun a s => (f a).Meets world inv post s) s) :
    (p.bind f).Meets world inv post s := by
  induction p generalizing s with
  | ret a => exact h.2
  | call op next ih => exact ⟨h.1, fun t ht r hr => ih r.1 (h.2 t ht r hr)⟩

/-- **The others move.** -/
theorem Meets.rely {t : S} (h : p.Meets world inv post s) (hmove : world.rely s t)
    (hinv : inv s → inv t) (hpost : ∀ a, post a s → post a t) : p.Meets world inv post t := by
  cases p with
  | ret a => exact ⟨hinv h.1, hpost a h.2⟩
  | call op next => exact ⟨hinv h.1, fun u hu r hr => h.2 u (world.trans hmove hu) r hr⟩

/-- **A call is answered.** -/
theorem Meets.answer {op : Op} {next : Res op → Program Op Res α} {r : Res op × S}
    (h : (Program.call op next).Meets world inv post s) (hr : r ∈ world.answers op s) :
    (next r.1).Meets world inv post r.2 :=
  h.2 s (world.refl s) r hr

end Program
