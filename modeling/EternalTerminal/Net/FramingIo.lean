import EternalTerminal.Lib.Process
import EternalTerminal.Net.Catchup

/-!
# Net — framed messages on a socket

A message goes over a socket as its length, an `i64` in eight little-endian bytes, and its
encoding.  Both sides bound the length.
-/

namespace EternalTerminal
open Bytes Job List

/-- The bytes of a framed message. -/
def lengthFramed (message : Bytes) : Bytes := leBytes 8 message.length ++ message

def writeProtoLimited (buffer : Bytes) (maxLen : Nat) : Job ConnError Unit :=
  if maxLen < buffer.length then throw (.io .invalidInput "message length exceeds configured limit")
  else do
    write (leBytes 8 buffer.length)
    write buffer

def protoReadChunk : Nat := 64 * 1024

/-- The loop of `readBody`, every round of which reads a byte at least. -/
def readBodyFrom (length : Nat) : Nat → Bytes → Job ConnError Bytes
  | 0, result => pure result
  | fuel + 1, result =>
    if result.length < length then do
      let chunk ← readExact (min (length - result.length) protoReadChunk)
      readBodyFrom length fuel (result ++ chunk)
    else pure result

/-- Grow a framed body in chunks as bytes arrive. -/
def readBody (length : Nat) : Job ConnError Bytes := readBodyFrom length length []

def readFrameLimited (maxLen : Nat) : Job ConnError Bytes := do
  let lengthBuffer ← readExact 8
  let length := Int.bmod (leValue lengthBuffer) (2 ^ 64)
  if 0 ≤ length ∧ length ≤ maxLen then readBody length.toNat
  else throw (.io .invalidData "frame length out of bounds")

/-! ### What completed calls moved -/

theorem ends_writeProtoLimited {buffer : Bytes} {maxLen : Nat} {i o : Bytes} {u : Unit}
    (h : Ends (writeProtoLimited buffer maxLen) i o u) :
    i = [] ∧ o = lengthFramed buffer ∧ buffer.length ≤ maxLen := by
  unfold writeProtoLimited at h
  split at h
  · exact nomatch h
  rename_i hle
  obtain ⟨_, i₁, i₂, o₁, o₂, rfl, rfl, hlen, hbody⟩ := ends_bind_iff.mp h
  obtain ⟨rfl, rfl⟩ := ends_write_iff.mp hlen
  obtain ⟨rfl, rfl⟩ := ends_write_iff.mp hbody
  exact ⟨rfl, rfl, Nat.le_of_not_lt hle⟩

/-- The induction is on the rounds left, which cover the bytes left. -/
theorem ends_readBodyFrom {length fuel : Nat} {result i o body : Bytes}
    (hfuel : length ≤ result.length + fuel) (hle : result.length ≤ length)
    (h : Ends (readBodyFrom length fuel result) i o body) :
    body = result ++ i ∧ o = [] ∧ body.length = length := by
  induction fuel generalizing result i o with
  | zero =>
    obtain ⟨rfl, rfl, rfl⟩ := ends_pure_iff.mp h
    exact ⟨(append_nil _).symm, rfl, by omega⟩
  | succ fuel ih =>
    rw [readBodyFrom] at h
    split at h
    · obtain ⟨chunk, i₁, i₂, o₁, o₂, rfl, rfl, hchunk, hrest⟩ := ends_bind_iff.mp h
      obtain ⟨rfl, rfl, hlen⟩ := ends_readExact_iff.mp hchunk
      have hsum : (result ++ i₁).length = result.length + i₁.length := length_append
      have hpos : 0 < protoReadChunk := by decide
      obtain ⟨rfl, rfl, hbody⟩ := ih (by omega) (by omega) hrest
      exact ⟨append_assoc _ _ _, rfl, hbody⟩
    · obtain ⟨rfl, rfl, rfl⟩ := ends_pure_iff.mp h
      exact ⟨(append_nil _).symm, rfl, by omega⟩

theorem ends_readFrameLimited {maxLen : Nat} {i o body : Bytes} (h : Ends (readFrameLimited maxLen) i o body) :
    i = lengthFramed body ∧ o = [] ∧ body.length ≤ maxLen := by
  obtain ⟨lengthBuffer, i₁, i₂, o₁, o₂, rfl, rfl, hbuf, hrest⟩ := ends_bind_iff.mp h
  obtain ⟨rfl, rfl, hlen⟩ := ends_readExact_iff.mp hbuf
  dsimp only at hrest
  split at hrest
  next hrng =>
    obtain ⟨rfl, rfl, hbody⟩ := ends_readBodyFrom (Nat.le_add_left _ _) (Nat.zero_le _) hrest
    -- a length that is not negative is the value of its bytes
    have hlt := leValue_lt i₁
    rw [hlen] at hlt
    have hval : leValue i₁ = body.length := by
      rw [Int.bmod_def] at hrng hbody
      split at hrng <;> omega
    refine ⟨?_, rfl, ?_⟩
    · rw [lengthFramed, ← hval, ← hlen, leBytes_leValue]
    · omega
  · exact nomatch hrest

/-- **The frames of a stream are determined by its bytes.** -/
theorem lengthFramed_append_inj {x y rest rest' : Bytes} (hx : x.length < 2 ^ 64)
    (hy : y.length < 2 ^ 64) (h : lengthFramed x ++ rest = lengthFramed y ++ rest') :
    x = y ∧ rest = rest' := by
  unfold lengthFramed at h
  rw [append_assoc, append_assoc] at h
  obtain ⟨hlen, hbody⟩ := append_inj h (by rw [length_leBytes, length_leBytes])
  have hval := congrArg leValue hlen
  rw [leValue_leBytes, leValue_leBytes, Nat.mod_eq_of_lt (by omega), Nat.mod_eq_of_lt (by omega)]
    at hval
  exact append_inj hbody hval

end EternalTerminal
