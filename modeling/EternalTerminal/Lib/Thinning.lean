import Mathlib.Data.List.Basic

/-!
# Lib — sequences with elements left out

An automaton with transition `next` reads a sequence.  `Thinned next may s l k` says that `k` is `l`
without some elements, each of which may be left out (`may`) in the state in which the automaton reads it
in `l`.

Where an element that may be left out does not move the automaton, `k` is read as `l` is
(`Thinned.foldl_eq`) and leaving out can be repeated (`Thinned.trans`).
-/

namespace Thinning

variable {σ α : Type} {next : σ → α → σ} {may : σ → α → Prop}

/-- `k` is `l`, read from the state `s`, without elements that may be left out where they are read. -/
inductive Thinned (next : σ → α → σ) (may : σ → α → Prop) : σ → List α → List α → Prop where
  | nil (s : σ) : Thinned next may s [] []
  | keep {s : σ} {a : α} {l k : List α} (h : Thinned next may (next s a) l k) :
      Thinned next may s (a :: l) (a :: k)
  | drop {s : σ} {a : α} {l k : List α} (hmay : may s a) (h : Thinned next may (next s a) l k) :
      Thinned next may s (a :: l) k

namespace Thinned

theorem refl (s : σ) (l : List α) : Thinned next may s l l := by
  induction l generalizing s with
  | nil => exact .nil s
  | cons a l ih => exact .keep (ih _)

theorem append {s : σ} {l₁ k₁ l₂ k₂ : List α} (h₁ : Thinned next may s l₁ k₁)
    (h₂ : Thinned next may (l₁.foldl next s) l₂ k₂) : Thinned next may s (l₁ ++ l₂) (k₁ ++ k₂) := by
  induction h₁ with
  | nil => exact h₂
  | keep _ ih => exact .keep (ih h₂)
  | drop hmay _ ih => exact .drop hmay (ih h₂)

theorem sublist {s : σ} {l k : List α} (h : Thinned next may s l k) : k.Sublist l := by
  induction h with
  | nil => exact .slnil
  | keep _ ih => exact ih.cons_cons _
  | drop _ _ ih => exact ih.cons _

section
variable {s : σ} {l k : List α} (hnext : ∀ s a, may s a → next s a = s) (h : Thinned next may s l k)
include hnext h

/-- What is left is read to the same state. -/
theorem foldl_eq : k.foldl next s = l.foldl next s := by
  induction h with
  | nil => rfl
  | keep _ ih => exact ih
  | drop hmay _ ih =>
    rw [hnext _ _ hmay] at ih
    rw [ih, List.foldl_cons, hnext _ _ hmay]

/-- Elements may be left out one after the other. -/
theorem trans {m : List α} (h' : Thinned next may s k m) : Thinned next may s l m := by
  induction h generalizing m with
  | nil => exact h'
  | keep _ ih =>
    cases h' with
    | keep h' => exact .keep (ih h')
    | drop hmay h' => exact .drop hmay (ih h')
  | drop hmay _ ih => exact .drop hmay (ih (by rwa [hnext _ _ hmay]))

end

end Thinned
end Thinning
