import Mathlib.Tactic

/-!
# Lib — machine integers

The conversions between machine integers and the operations on them that can fail, on `Nat` and
`Int`: a 64-bit target, where `usize` is 64 bits wide.
-/

namespace Machine

def i64Max : Int := 2 ^ 63 - 1
/-- The largest `usize`, and the largest `u64`. -/
def usizeMax : Nat := 2 ^ 64 - 1

/-- `i64::try_from` of a `usize`. -/
def i64OfUsize (n : Nat) : Option Int := if (n : Int) ≤ i64Max then some n else none

/-- `i64::checked_add`. -/
def checkedAdd (a b : Int) : Option Int :=
  if -i64Max - 1 ≤ a + b ∧ a + b ≤ i64Max then some (a + b) else none

/-- `usize::try_from` of an `i64`. -/
def usizeOfI64 (n : Int) : Option Nat := if 0 ≤ n then some n.toNat else none

/-- A subtraction of `usize`, which must not underflow. -/
def checkedSub (a b : Nat) : Option Nat := if b ≤ a then some (a - b) else none

/-- `u64::saturating_add`. -/
def saturatingAddU64 (a b : Nat) : Nat := min (a + b) usizeMax

/-- `u64::saturating_mul`. -/
def saturatingMulU64 (a b : Nat) : Nat := min (a * b) usizeMax

/-- `i64::saturating_add`. -/
def saturatingAdd (a b : Int) : Int := max (-i64Max - 1) (min i64Max (a + b))

/-- `i64::saturating_sub`. -/
def saturatingSub (a b : Int) : Int := max (-i64Max - 1) (min i64Max (a - b))

/-- `i64::saturating_mul`. -/
def saturatingMul (a b : Int) : Int := max (-i64Max - 1) (min i64Max (a * b))

theorem saturatingAdd_eq {a b : Int} (hlow : -i64Max - 1 ≤ a + b) (hhigh : a + b ≤ i64Max) :
    saturatingAdd a b = a + b := by
  rw [saturatingAdd, min_eq_right hhigh, max_eq_right hlow]

theorem saturatingSub_eq {a b : Int} (hlow : -i64Max - 1 ≤ a - b) (hhigh : a - b ≤ i64Max) :
    saturatingSub a b = a - b := by
  rw [saturatingSub, min_eq_right hhigh, max_eq_right hlow]

@[simp] theorem checkedSub_add (a b : Nat) : checkedSub (a + b) a = some b := by
  rw [checkedSub, if_pos (Nat.le_add_right a b), Nat.add_sub_cancel_left]

theorem checkedAdd_any_le {a b c : Int} (ha : 0 ≤ a) (hb : 0 ≤ b) (hc : c ≤ i64Max) :
    (checkedAdd a b).any (· ≤ c) = decide (a + b ≤ c) := by
  unfold checkedAdd i64Max at *
  split <;> rename_i h
  · rfl
  · exact (decide_eq_false (by omega)).symm

theorem usizeOfI64_getD {n : Int} (h : 0 ≤ n) : (usizeOfI64 n).getD usizeMax = n.toNat := by
  rw [usizeOfI64, if_pos h]; rfl

end Machine
