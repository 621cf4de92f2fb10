import Mathlib.Data.Nat.Digits.Defs
import Mathlib.Tactic

/-!
# Lib — byte strings

Byte strings as lists, with the fixed-width integers a wire format writes into them.

* `beBytes w n` and `leBytes w n`: `n` in `w` bytes, most and least significant first; a value
  that does not fit is reduced modulo `256 ^ w`, as a truncating cast does.  `beValue` and
  `leValue` read them back (`beValue_beBytes`, `leValue_leBytes`, `leBytes_leValue`).
* `leSucc`: a little-endian counter, incremented in place with its carry.  Its value goes up by
  one modulo `256 ^ length` (`leValue_leSucc`), so fewer than `256 ^ length` increments never
  meet the same counter twice (`leSucc_iterate_inj`).
* `slice a b l`: the bytes from `a` to `b`.  `overwrite i bs l` copies `bs` over `l` at `i`.
-/

/-- A byte string. -/
abbrev Bytes := List UInt8

namespace Bytes
open List Nat
variable {i a b : Nat} {bs l : Bytes}

/-! ### Fixed-width integers -/

/-- `n` in `w` bytes, most significant first. -/
def beBytes : Nat → Nat → Bytes
  | 0, _ => []
  | w + 1, n => UInt8.ofNat (n / 256 ^ w) :: beBytes w n

/-- The number big-endian bytes stand for. -/
def beValue : Bytes → Nat
  | [] => 0
  | b :: bs => b.toNat * 256 ^ bs.length + beValue bs

/-- `n` in `w` bytes, least significant first. -/
def leBytes : Nat → Nat → Bytes
  | 0, _ => []
  | w + 1, n => UInt8.ofNat n :: leBytes w (n / 256)

/-- The number little-endian bytes stand for. -/
def leValue (bs : Bytes) : Nat := ofDigits 256 (bs.map UInt8.toNat)

@[simp] theorem length_beBytes : ∀ w n, (beBytes w n).length = w
  | 0, _ => rfl
  | w + 1, n => by simp [beBytes, length_beBytes w n]

@[simp] theorem length_leBytes : ∀ w n, (leBytes w n).length = w
  | 0, _ => rfl
  | w + 1, n => by simp [leBytes, length_leBytes w (n / 256)]

@[simp] theorem leValue_nil : leValue [] = 0 := rfl

@[simp] theorem leValue_cons (b : UInt8) (bs : Bytes) :
    leValue (b :: bs) = b.toNat + 256 * leValue bs := by
  simp [leValue, ofDigits_cons]

theorem beValue_beBytes : ∀ w n, beValue (beBytes w n) = n % 256 ^ w
  | 0, n => by simp [beBytes, beValue, mod_one]
  | w + 1, n => by
      have hb : (UInt8.ofNat (n / 256 ^ w)).toNat = n / 256 ^ w % 256 := by simp
      simp only [beBytes, beValue, beValue_beBytes w n, length_beBytes, hb]
      rw [Nat.pow_succ, mod_mul]
      ring

theorem leValue_leBytes : ∀ w n, leValue (leBytes w n) = n % 256 ^ w
  | 0, n => by simp [leBytes, mod_one]
  | w + 1, n => by
      have hb : (UInt8.ofNat n).toNat = n % 256 := by simp
      simp only [leBytes, leValue_cons, leValue_leBytes w (n / 256), hb]
      rw [Nat.pow_succ', mod_mul]

theorem leBytes_leValue : ∀ bs : Bytes, leBytes bs.length (leValue bs) = bs
  | [] => rfl
  | b :: bs => by
      have hb : b.toNat < 256 := b.toNat_lt
      have hmod : UInt8.ofNat (b.toNat + 256 * leValue bs) = b := by
        rw [← UInt8.toNat_inj, UInt8.toNat_ofNat']
        omega
      have hdiv : (b.toNat + 256 * leValue bs) / 256 = leValue bs := by omega
      rw [length_cons, leValue_cons, leBytes, hmod, hdiv, leBytes_leValue bs]

theorem leValue_lt (bs : Bytes) : leValue bs < 256 ^ bs.length := by
  have h : ∀ x ∈ bs.map UInt8.toNat, x < 256 := by
    intro x hx
    obtain ⟨b, -, rfl⟩ := mem_map.mp hx
    exact b.toNat_lt
  simpa [leValue] using ofDigits_lt_base_pow_length (by norm_num) h

/-! ### Little-endian counters -/

/-- Add one to a little-endian counter: the first byte that does not wrap to zero ends the
carry. -/
def leSucc : Bytes → Bytes
  | [] => []
  | b :: bs => if b + 1 ≠ 0 then (b + 1) :: bs else (b + 1) :: leSucc bs

@[simp] theorem length_leSucc : ∀ bs, (leSucc bs).length = bs.length
  | [] => rfl
  | b :: bs => by
      simp only [leSucc]
      split <;> simp [length_leSucc bs]

theorem leValue_leSucc : ∀ bs, leValue (leSucc bs) = (leValue bs + 1) % 256 ^ bs.length
  | [] => by simp [leSucc]
  | b :: bs => by
      have hb := b.toNat_lt
      have hlt := leValue_lt bs
      simp only [leSucc, length_cons]
      by_cases h : b + 1 = 0
      · -- the byte was 255: it wraps and the carry goes on
        have h255 : b.toNat = 255 := by
          have := congrArg UInt8.toNat h
          simp only [UInt8.toNat_add, UInt8.toNat_one, UInt8.toNat_zero] at this
          omega
        rw [if_neg (by simpa using h), h, leValue_cons, leValue_cons, leValue_leSucc bs, h255,
          Nat.pow_succ']
        rw [show 255 + 256 * leValue bs + 1 = 256 * (leValue bs + 1) by ring, mul_mod_mul_left]
        simp
      · have hne : b.toNat ≠ 255 := by
          intro e
          apply h
          apply UInt8.toNat_inj.mp
          simp [UInt8.toNat_add, e]
        have hs : (b + 1).toNat = b.toNat + 1 := by
          simp only [UInt8.toNat_add, UInt8.toNat_one]
          omega
        rw [if_pos h, leValue_cons, leValue_cons, hs, mod_eq_of_lt]
        · ring
        · rw [Nat.pow_succ']; omega

@[simp] theorem length_leSucc_iterate (bs : Bytes) (n : Nat) :
    (leSucc^[n] bs).length = bs.length := by
  induction n with
  | zero => rfl
  | succ n ih => rw [Function.iterate_succ_apply', length_leSucc, ih]

theorem leValue_leSucc_iterate (bs : Bytes) (n : Nat) :
    leValue (leSucc^[n] bs) = (leValue bs + n) % 256 ^ bs.length := by
  induction n with
  | zero => simp [mod_eq_of_lt (leValue_lt bs)]
  | succ n ih =>
    rw [Function.iterate_succ_apply', leValue_leSucc, ih, length_leSucc_iterate, mod_add_mod,
      Nat.add_assoc]

/-- **Distinct counters.**  Two counts below the counter's period leave it in two states. -/
theorem leSucc_iterate_inj {j : Nat} (hi : i < 256 ^ bs.length)
    (hj : j < 256 ^ bs.length) (h : leSucc^[i] bs = leSucc^[j] bs) : i = j := by
  have hv : leValue bs + i ≡ leValue bs + j [MOD 256 ^ bs.length] := by
    have := congrArg leValue h
    rwa [leValue_leSucc_iterate, leValue_leSucc_iterate] at this
  have hm : i % 256 ^ bs.length = j % 256 ^ bs.length := ModEq.add_left_cancel' _ hv
  rwa [mod_eq_of_lt hi, mod_eq_of_lt hj] at hm

/-! ### Slices -/

/-- The bytes of `l` from `a` to `b`. -/
def slice (a b : Nat) (l : Bytes) : Bytes := (l.take b).drop a

/-- Copy `bs` over `l` at `i`. -/
def overwrite (i : Nat) (bs l : Bytes) : Bytes := l.take i ++ bs ++ l.drop (i + bs.length)

@[simp] theorem slice_self (a : Nat) (l : Bytes) : slice a a l = [] := by
  simp [slice]

theorem length_slice (h : b ≤ l.length) : (slice a b l).length = b - a := by
  simp [slice, Nat.min_eq_left h]

theorem length_overwrite (h : i + bs.length ≤ l.length) :
    (overwrite i bs l).length = l.length := by
  simp only [overwrite, length_append, length_take, length_drop]
  omega

/-- What was copied at `i` extends every slice that ended there. -/
theorem slice_overwrite (ha : a ≤ i) (h : i + bs.length ≤ l.length) :
    slice a (i + bs.length) (overwrite i bs l) = slice a i l ++ bs := by
  have hi : (l.take i).length = i := by simp; omega
  have hl : (l.take i ++ bs).length = i + bs.length := by rw [length_append, hi]
  rw [slice, overwrite, ← hl, take_left, slice, drop_append_of_le_length (by omega)]

theorem slice_append_right (pad : Bytes) (h : b ≤ l.length) :
    slice a b (l ++ pad) = slice a b l := by
  rw [slice, slice, take_append_of_le_length h]

theorem drop_slice (a b n : Nat) (l : Bytes) : (slice a b l).drop n = slice (a + n) b l := by
  rw [slice, slice, drop_drop]

theorem take_slice {n : Nat} (l : Bytes) (h : a + n ≤ b) :
    (slice a b l).take n = slice a (a + n) l := by
  rw [slice, slice, take_drop, take_take, Nat.min_eq_left h]

/-- A slice moved to the front is the leading slice of the result. -/
theorem slice_copyWithin (h : b ≤ l.length) :
    slice 0 (b - a) (overwrite 0 (slice a b l) l) = slice a b l := by
  have hl := length_slice (a := a) h
  have hle : 0 + (slice a b l).length ≤ l.length := by omega
  have hmoved := slice_overwrite (a := 0) le_rfl hle
  rw [hl] at hmoved
  simpa using hmoved

end Bytes
