import Mathlib.Logic.Relation
import Mathlib.Tactic

/-!
# Lib — bounded histories and runs

A history is kept newest first with a running total of the weights of its entries, and is cut
at its old end by loops of the form "while `p (number of entries) (total)`, drop the oldest
entry and subtract its weight" (`trimBack`).  `trimBack_spec` says once what such a loop does:
it keeps the longest front part on which `p` fails, and its running total stays exact.

`reach_invariant` is the induction over a run of any step relation; `reach_of_events` and
`reach_of_exec` make a run of a list of events.
-/

open List

namespace History

variable {α : Type} (weight : α → Int)

/-- The weight of all entries. -/
def total (l : List α) : Int := (l.map weight).sum

@[simp] theorem total_nil : total weight ([] : List α) = 0 := rfl

@[simp] theorem total_cons (a : α) (l : List α) :
    total weight (a :: l) = weight a + total weight l := by simp [total]

theorem total_append (l₁ l₂ : List α) :
    total weight (l₁ ++ l₂) = total weight l₁ + total weight l₂ := by simp [total]

theorem total_reverse (l : List α) : total weight l.reverse = total weight l := by
  induction l with
  | nil => rfl
  | cons a l ih => rw [reverse_cons, total_append, ih, total_cons, total_cons, total_nil]; ring

theorem total_nonneg {l : List α} (h : ∀ a ∈ l, 0 ≤ weight a) : 0 ≤ total weight l := by
  induction l with
  | nil => simp
  | cons a l ih =>
    have h₁ := h a mem_cons_self
    have h₂ := ih fun b hb => h b (mem_cons_of_mem _ hb)
    rw [total_cons]
    omega

theorem total_take_le {l : List α} (h : ∀ a ∈ l, 0 ≤ weight a) (n : Nat) :
    total weight (l.take n) ≤ total weight l := by
  have h' := total_nonneg weight fun a ha => h a (mem_of_mem_drop (i := n) ha)
  have := total_append weight (l.take n) (l.drop n)
  rw [take_append_drop] at this
  omega

/-- Entries of weight at least `c` number at most the total over `c`. -/
theorem length_mul_le_total {c : Int} {l : List α} (h : ∀ a ∈ l, c ≤ weight a) :
    c * l.length ≤ total weight l := by
  induction l with
  | nil => simp
  | cons a l ih =>
    have h₁ := h a mem_cons_self
    have h₂ := ih fun b hb => h b (mem_cons_of_mem _ hb)
    rw [total_cons, length_cons]
    push_cast
    linarith

/-! ### Trimming at the old end -/

/-- `trimBack` on the oldest-first list. -/
def trimOldest (p : Nat → Int → Bool) : List α → Int → List α × Int
  | [], size => ([], size)
  | old :: rest, size =>
    if p (rest.length + 1) size then trimOldest p rest (size - weight old)
    else (old :: rest, size)

/-- While `p` holds of the number of entries and of `size`, pop the entry at the back of the
newest-first list and take its weight off `size`. -/
def trimBack (p : Nat → Int → Bool) (l : List α) (size : Int) : List α × Int :=
  let r := trimOldest weight p l.reverse size
  (r.1.reverse, r.2)

section
variable (p : Nat → Int → Bool) (l : List α)

theorem trimOldest_spec :
    ∃ n ≤ l.length, trimOldest weight p l (total weight l) = (l.drop n, total weight (l.drop n)) ∧
      (l.length = n ∨ p (l.length - n) (total weight (l.drop n)) = false) ∧
      ∀ m < n, p (l.length - m) (total weight (l.drop m)) = true := by
  induction l with
  | nil => exact ⟨0, le_rfl, rfl, .inl rfl, fun m hm => absurd hm (Nat.not_lt_zero m)⟩
  | cons a l ih =>
    by_cases hp : p (l.length + 1) (total weight (a :: l)) = true
    · obtain ⟨n, hn, heq, hstop, hall⟩ := ih
      refine ⟨n + 1, Nat.succ_le_succ hn, ?_, ?_, ?_⟩
      · have hsub : total weight (a :: l) - weight a = total weight l := by simp
        rw [trimOldest, if_pos hp, hsub, heq, drop_succ_cons]
      · simpa using hstop
      · intro m hm
        cases m with
        | zero => simpa using hp
        | succ m => simpa using hall m (by omega)
    · refine ⟨0, Nat.zero_le _, ?_, .inr (by simpa using hp), fun m hm => absurd hm (Nat.not_lt_zero m)⟩
      rw [trimOldest, if_neg hp, drop_zero]

/-- Whatever the running total says, only old entries go. -/
theorem trimOldest_drop (size : Int) : ∃ n, (trimOldest weight p l size).1 = l.drop n := by
  induction l generalizing size with
  | nil => exact ⟨0, rfl⟩
  | cons old rest ih =>
    rw [trimOldest]
    split
    · obtain ⟨n, hn⟩ := ih (size - weight old)
      exact ⟨n + 1, hn⟩
    · exact ⟨0, rfl⟩

theorem trimBack_take (size : Int) : ∃ n, (trimBack weight p l size).1 = l.take n := by
  obtain ⟨n, hn⟩ := trimOldest_drop weight p l.reverse size
  refine ⟨l.length - n, ?_⟩
  rw [trimBack, hn, drop_reverse, reverse_reverse]

/-- **What a trimming loop does.**  From an exact running total it keeps the front `n` entries
with their exact total; it stopped because nothing is left or `p` fails there, and `p` held of
every longer front part. -/
theorem trimBack_spec :
    ∃ n ≤ l.length, trimBack weight p l (total weight l) = (l.take n, total weight (l.take n)) ∧
      (n = 0 ∨ p n (total weight (l.take n)) = false) ∧
      ∀ m, n < m → m ≤ l.length → p m (total weight (l.take m)) = true := by
  obtain ⟨k, hk, heq, hstop, hall⟩ := trimOldest_spec weight p l.reverse
  rw [length_reverse] at hk hstop hall
  have htake : ∀ m ≤ l.length, l.take (l.length - m) = (l.reverse.drop m).reverse := by
    intro m hm
    rw [drop_reverse, reverse_reverse]
  refine ⟨l.length - k, Nat.sub_le _ _, ?_, ?_, ?_⟩
  · rw [htake k hk, total_reverse, trimBack, ← total_reverse weight l, heq]
  · rw [htake k hk, total_reverse]
    rcases hstop with h | h
    · exact .inl (by omega)
    · exact .inr h
  · intro m hm hml
    have := hall (l.length - m) (by omega)
    rw [← total_reverse, ← htake _ (by omega)] at this
    rwa [show l.length - (l.length - m) = m by omega] at this

end

end History

/-! ### Runs -/

variable {σ ε : Type} {step : σ → σ → Prop} {s t : σ} {apply : σ → ε → Option σ} {ok : σ → ε → Prop}

/-- **The induction over a run**: what holds at the start and is kept by every step holds at
the end. -/
theorem reach_invariant {P : σ → Prop} (hrun : Relation.ReflTransGen step s t) (h₀ : P s)
    (hstep : ∀ a b, P a → step a b → P b) : P t := by
  induction hrun with
  | refl => exact h₀
  | tail _ h ih => exact hstep _ _ ih h

/-- Every event of the list is allowed where it comes. -/
def AllowedRun {σ ε : Type} (apply : σ → ε → σ) (ok : σ → ε → Prop) : σ → List ε → Prop
  | _, [] => True
  | s, e :: es => ok s e ∧ AllowedRun apply ok (apply s e) es

instance AllowedRun.decidable {σ ε : Type} (apply : σ → ε → σ) (ok : σ → ε → Prop)
    [∀ s e, Decidable (ok s e)] : ∀ s es, Decidable (AllowedRun apply ok s es)
  | _, [] => inferInstanceAs (Decidable True)
  | s, e :: es =>
    have := AllowedRun.decidable apply ok (apply s e) es
    inferInstanceAs (Decidable (ok s e ∧ _))

/-- A list of allowed events is a run. -/
theorem reach_of_events {apply : σ → ε → σ} (hstep : ∀ s e, ok s e → step s (apply s e)) (es : List ε)
    (h : AllowedRun apply ok s es) : Relation.ReflTransGen step s (es.foldl apply s) := by
  induction es generalizing s with
  | nil => exact .refl
  | cons e es ih => exact .head (hstep s e h.1) (ih h.2)

/-- Events that may fail, one after the other. -/
def execEvents {σ ε : Type} (apply : σ → ε → Option σ) : σ → List ε → Option σ
  | s, [] => some s
  | s, e :: es => (apply s e).bind fun s => execEvents apply s es

section
variable (hstep : ∀ s e t, apply s e = some t → step s t) (es : List ε)
include hstep

/-- Events that do not fail are a run. -/
theorem reach_of_exec (h : execEvents apply s es = some t) : Relation.ReflTransGen step s t := by
  induction es generalizing s with
  | nil => exact Option.some.inj h ▸ .refl
  | cons e es ih =>
    obtain ⟨u, hu, ht⟩ := Option.bind_eq_some_iff.mp h
    exact .head (hstep s e u hu) (ih ht)

/-- The state after events that do not fail. -/
theorem reach_getD (h : (execEvents apply s es).isSome) :
    Relation.ReflTransGen step s ((execEvents apply s es).getD s) := by
  obtain ⟨t, ht⟩ := Option.isSome_iff_exists.mp h
  rw [ht]
  exact reach_of_exec hstep es ht

end

/-- The same for events with a guard. -/
theorem reach_guarded
    [∀ s e, Decidable (ok s e)] (hstep : ∀ s e t, ok s e → apply s e = some t → step s t) (es : List ε)
    (h : (execEvents (fun s e => if ok s e then apply s e else none) s es).isSome) :
    Relation.ReflTransGen step s ((execEvents (fun s e => if ok s e then apply s e else none) s es).getD s) :=
  reach_getD (fun s e t ht => (Option.ite_none_right_eq_some.mp ht).elim (hstep s e t)) es h
