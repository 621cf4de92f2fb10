import EternalTerminal.Core.Crypto
import EternalTerminal.Core.OutputInterrupt

/-!
# Core — connection proofs

The keyed hashes a client and a server exchange before a connection is accepted.  A hashed message is made of fields
with a NUL between them; a field that may hold a NUL has its length in front of it, except the client id of a reset
decision.  `ProofContext` is what a proof is about: different contexts have different messages
(`ProofContext.message_inj`), so that no proof of one is accepted for another.
-/

namespace EternalTerminal
open List

def authChallengeBytes : Nat := 32
def proofBytes : Nat := 32

/-- The bytes of `to_string`. -/
def decimal (n : Nat) : Bytes := (Nat.toDigits 10 n).map Char.toUInt8

def decimalInt : Int → Bytes
  | .ofNat n => decimal n
  | .negSucc n => 45 :: decimal (n + 1)

/-- The byte of a flag. -/
def flagByte (flag : Bool) : UInt8 := if flag then 49 else 48

def connectionProofMessage (clientId : Bytes) (protocolVersion : Int) (challenge : Bytes) (resetIntent : Bool) :
    Bytes :=
  ascii "EternalTerminal connect auth v2" ++ 0 :: (decimalInt protocolVersion ++ 0 :: (decimal clientId.length ++
    0 :: (clientId ++ 0 :: (decimal challenge.length ++ 0 :: (challenge ++ 0 :: [flagByte resetIntent])))))

def resetDecisionMessage (clientId : Bytes) (protocolVersion : Int) (challenge : Bytes) (status : Int)
    (resetRequired : Bool) (resetSalt : Bytes) : Bytes :=
  ascii "EternalTerminal reset decision v3" ++ 0 :: (decimalInt protocolVersion ++ 0 :: (clientId ++
    0 :: (decimal challenge.length ++ 0 :: (challenge ++ 0 :: (decimalInt status ++
      0 :: flagByte resetRequired :: 0 :: (decimal resetSalt.length ++ 0 :: resetSalt))))))

def constantTimeEq (left right : Bytes) : Bool :=
  if left.length ≠ right.length then false
  else (left.zip right).foldl (fun diff pair => diff ||| (pair.1 ^^^ pair.2)) 0 == 0

def connectionProof (S : Sodium) (key : Key) (clientId : Bytes) (protocolVersion : Int) (challenge : Bytes)
    (resetIntent : Bool) : Except ProofError Key :=
  if challenge.length ≠ authChallengeBytes then .error .proofError
  else S.generichash key (connectionProofMessage clientId protocolVersion challenge resetIntent)

def resetDecisionProof (S : Sodium) (key : Key) (clientId : Bytes) (protocolVersion : Int) (challenge : Bytes)
    (status : Int) (resetRequired : Bool) (resetSalt : Bytes) : Except ProofError Key :=
  if challenge.length ≠ authChallengeBytes then .error .proofError
  else if resetRequired && resetSalt.length != epochSaltBytes then .error .proofError
  else if !resetRequired && !resetSalt.isEmpty then .error .proofError
  else S.generichash key
    (resetDecisionMessage clientId protocolVersion challenge status resetRequired resetSalt)

/-- The end of both verifications. -/
def verifyProof (proof challenge : Bytes) (expected : Except ProofError Key) : Bool :=
  if proof.length ≠ proofBytes ∨ challenge.length ≠ authChallengeBytes then false
  else match expected with
    | .ok expected => constantTimeEq proof expected
    | .error _ => false

def verifyConnectionProof (S : Sodium) (proof : Bytes) (key : Key) (clientId : Bytes) (protocolVersion : Int)
    (challenge : Bytes) (resetIntent : Bool) : Bool :=
  verifyProof proof challenge (connectionProof S key clientId protocolVersion challenge resetIntent)

def verifyResetDecisionProof (S : Sodium) (proof : Bytes) (key : Key) (clientId : Bytes) (protocolVersion : Int)
    (challenge : Bytes) (status : Int) (resetRequired : Bool) (resetSalt : Bytes) : Bool :=
  verifyProof proof challenge
    (resetDecisionProof S key clientId protocolVersion challenge status resetRequired resetSalt)

theorem constantTimeEq_iff {left right : Bytes} : constantTimeEq left right = true ↔ left = right := by
  have hfold : ∀ (pairs : List (UInt8 × UInt8)) (diff : UInt8),
      pairs.foldl (fun diff pair => diff ||| (pair.1 ^^^ pair.2)) diff = 0 ↔ diff = 0 ∧ ∀ p ∈ pairs, p.1 = p.2 := by
    intro pairs
    induction pairs with
    | nil => simp
    | cons p pairs ih => simp [ih, UInt8.or_eq_zero_iff, and_assoc]
  unfold constantTimeEq
  split
  next hlen =>
    exact ⟨nofun, fun h => absurd (congrArg List.length h) hlen⟩
  rename_i hlen
  rw [beq_iff_eq, hfold, not_ne_iff] at *
  constructor
  · rintro ⟨-, h⟩
    refine ext_getElem hlen fun i h₁ h₂ => ?_
    exact h (left[i], right[i]) (mem_iff_getElem.mpr ⟨i, by simp; omega, by simp⟩)
  · rintro rfl
    refine ⟨rfl, fun p hp => ?_⟩
    obtain ⟨i, hi, rfl⟩ := mem_iff_getElem.mp hp
    simp

theorem verifyProof_iff {proof challenge : Bytes} {expected : Except ProofError Key}
    (h : verifyProof proof challenge expected = true) : ∃ key, expected = .ok key ∧ proof = key.1 := by
  unfold verifyProof at h
  split at h
  · cases h
  · cases expected with
    | ok key => exact ⟨key, rfl, constantTimeEq_iff.mp h⟩
    | error e => cases h

/-! ### Fields -/

theorem digit_of_mem_toDigits {c : Char} {n : Nat} (h : c ∈ Nat.toDigits 10 n) :
    48 ≤ c.toUInt8.toNat ∧ c.toUInt8.toNat = c.toNat := by
  have hdigit := Nat.isDigit_of_mem_toDigits (by decide) (by decide) h
  simp only [Char.isDigit, Bool.and_eq_true, decide_eq_true_eq, ge_iff_le, UInt32.le_iff_toNat_le] at hdigit
  have h₁ : 48 ≤ c.val.toNat := hdigit.1
  have h₂ : c.val.toNat ≤ 57 := hdigit.2
  rw [Char.toUInt8, UInt32.toNat_toUInt8, Char.toNat]
  omega

theorem decimal_injective : Function.Injective decimal := by
  have hback : ∀ n, (decimal n).map (fun b => Char.ofNat b.toNat) = Nat.toDigits 10 n := by
    intro n
    rw [decimal, map_map]
    refine (map_congr_left fun c hc => ?_).trans (map_id _)
    rw [Function.comp_apply, (digit_of_mem_toDigits hc).2, Char.ofNat_toNat, id]
  intro m n h
  have hdigits := (hback m).symm.trans ((congrArg _ h).trans (hback n))
  rw [← Nat.ofDigitChars_ten_toDigits (n := m), hdigits, Nat.ofDigitChars_ten_toDigits]

theorem le_of_mem_decimal {b : UInt8} {n : Nat} (h : b ∈ decimal n) : 48 ≤ b.toNat := by
  obtain ⟨c, hc, rfl⟩ := mem_map.mp h
  exact (digit_of_mem_toDigits hc).1

theorem decimalInt_injective : Function.Injective decimalInt := by
  have hsign : ∀ m n, decimal m ≠ 45 :: decimal n := fun m n h =>
    absurd (le_of_mem_decimal (h ▸ mem_cons_self)) (by decide)
  intro a b h
  cases a with
  | ofNat m =>
    cases b with
    | ofNat n => exact congrArg _ (decimal_injective h)
    | negSucc n => exact absurd h (hsign _ _)
  | negSucc m =>
    cases b with
    | ofNat n => exact absurd h.symm (hsign _ _)
    | negSucc n => exact congrArg _ (Nat.succ.inj (decimal_injective (List.cons.inj h).2))

theorem nul_notMem_decimal (n : Nat) : 0 ∉ decimal n := fun h => absurd (le_of_mem_decimal h) (by decide)

theorem nul_notMem_decimalInt (i : Int) : 0 ∉ decimalInt i := by
  cases i with
  | ofNat n => exact nul_notMem_decimal n
  | negSucc n => simpa [decimalInt] using nul_notMem_decimal (n + 1)

/-- A field without a NUL ends at the first one. -/
theorem field_inj {a b r r' : Bytes} (ha : 0 ∉ a) (hb : 0 ∉ b) (h : a ++ 0 :: r = b ++ 0 :: r') : a = b ∧ r = r' := by
  induction a generalizing b with
  | nil =>
    cases b with
    | nil => exact ⟨rfl, (List.cons.inj h).2⟩
    | cons x b => exact absurd ((List.cons.inj h).1 ▸ mem_cons_self) hb
  | cons x a ih =>
    cases b with
    | nil => exact absurd ((List.cons.inj h).1 ▸ mem_cons_self) ha
    | cons y b =>
      obtain ⟨rfl, htail⟩ := List.cons.inj h
      obtain ⟨rfl, rfl⟩ := ih (fun hx => ha (mem_cons_of_mem _ hx)) (fun hx => hb (mem_cons_of_mem _ hx)) htail
      exact ⟨rfl, rfl⟩

/-- A field with its length in front. -/
theorem sized_inj {a b r r' : Bytes} (h : decimal a.length ++ 0 :: (a ++ r) = decimal b.length ++ 0 :: (b ++ r')) :
    a = b ∧ r = r' := by
  obtain ⟨hlen, h⟩ := field_inj (nul_notMem_decimal _) (nul_notMem_decimal _) h
  exact append_inj h (decimal_injective hlen)

theorem flagByte_injective : Function.Injective flagByte := by decide

/-! ### Contexts -/

/-- What a proof is about. -/
inductive ProofContext where
  | connection (clientId : Bytes) (protocolVersion : Int) (challenge : Bytes) (resetIntent : Bool)
  | resetDecision (clientId : Bytes) (protocolVersion : Int) (challenge : Bytes) (status : Int) (resetRequired : Bool)
      (resetSalt : Bytes)
  deriving DecidableEq

namespace ProofContext

def message : ProofContext → Bytes
  | connection clientId protocolVersion challenge resetIntent =>
    connectionProofMessage clientId protocolVersion challenge resetIntent
  | resetDecision clientId protocolVersion challenge status resetRequired resetSalt =>
    resetDecisionMessage clientId protocolVersion challenge status resetRequired resetSalt

def proof (S : Sodium) (key : Key) : ProofContext → Except ProofError Key
  | connection clientId protocolVersion challenge resetIntent =>
    connectionProof S key clientId protocolVersion challenge resetIntent
  | resetDecision clientId protocolVersion challenge status resetRequired resetSalt =>
    resetDecisionProof S key clientId protocolVersion challenge status resetRequired resetSalt

def verify (S : Sodium) (proof : Bytes) (key : Key) : ProofContext → Bool
  | connection clientId protocolVersion challenge resetIntent =>
    verifyConnectionProof S proof key clientId protocolVersion challenge resetIntent
  | resetDecision clientId protocolVersion challenge status resetRequired resetSalt =>
    verifyResetDecisionProof S proof key clientId protocolVersion challenge status resetRequired resetSalt

/-- The one field without its length, the client id of a reset decision, holds no NUL where two of them are compared. -/
def Separated : ProofContext → ProofContext → Prop
  | resetDecision clientId .., resetDecision clientId' .. => 0 ∉ clientId ∧ 0 ∉ clientId'
  | connection .., _ | _, connection .. => True

variable {c : ProofContext} {S : Sodium} {key proof : Key}

theorem message_inj {c' : ProofContext} (hc : c.Separated c') (h : c.message = c'.message) : c = c' := by
  have hauth : 0 ∉ ascii "EternalTerminal connect auth v2" := by decide +kernel
  have hreset : 0 ∉ ascii "EternalTerminal reset decision v3" := by decide +kernel
  have hversion : ∀ {v v' : Int} {r r' : Bytes}, decimalInt v ++ 0 :: r = decimalInt v' ++ 0 :: r' → v = v' ∧ r = r' :=
    fun h => (field_inj (nul_notMem_decimalInt _) (nul_notMem_decimalInt _) h).imp_left (decimalInt_injective ·)
  cases c with
  | connection =>
    cases c' with
    | connection =>
      obtain ⟨rfl, h₁⟩ := hversion (field_inj hauth hauth h).2
      obtain ⟨rfl, h₂⟩ := sized_inj h₁
      obtain ⟨rfl, h₃⟩ := sized_inj (List.cons.inj h₂).2
      obtain rfl := flagByte_injective (List.cons.inj (List.cons.inj h₃).2).1
      rfl
    | resetDecision => exact absurd (field_inj hauth hreset h).1 (by decide +kernel)
  | resetDecision =>
    cases c' with
    | connection => exact absurd (field_inj hreset hauth h).1 (by decide +kernel)
    | resetDecision =>
      obtain ⟨rfl, h₁⟩ := hversion (field_inj hreset hreset h).2
      obtain ⟨rfl, h₂⟩ := field_inj hc.1 hc.2 h₁
      obtain ⟨rfl, h₃⟩ := sized_inj h₂
      obtain ⟨rfl, h₄⟩ := hversion (List.cons.inj h₃).2
      obtain ⟨hflag, h₅⟩ := List.cons.inj h₄
      obtain rfl := flagByte_injective hflag
      obtain ⟨-, rfl⟩ := field_inj (nul_notMem_decimal _) (nul_notMem_decimal _) (List.cons.inj h₅).2
      rfl

theorem generichash_of_proof (h : c.proof S key = .ok proof) :
    S.generichash key c.message = .ok proof := by
  cases c with
  | connection =>
    simp only [ProofContext.proof, connectionProof] at h
    split at h
    · cases h
    · exact h
  | resetDecision =>
    simp only [ProofContext.proof, resetDecisionProof] at h
    repeat' split at h
    all_goals first | cases h | exact h

theorem proof_of_verify (h : c.verify S proof key = true) :
    c.proof S key = .ok proof := by
  have hproof : ∃ expected, c.proof S key = .ok expected ∧ proof.1 = expected.1 := by
    cases c with
    | connection => exact verifyProof_iff h
    | resetDecision => exact verifyProof_iff h
  obtain ⟨expected, hexpected, heq⟩ := hproof
  rw [hexpected, Subtype.ext heq]

end ProofContext

/-- **A proof is good for its own context only.**  Messages of different contexts differ, and where the keyed hash does
not collide on what it is asked, a proof that was made for one context and key is not accepted for another; between a
connection and a reset decision without a condition on the client ids. -/
theorem proofs_separate :
    (∀ c c' : ProofContext, c.Separated c' → c.message = c'.message → c = c') ∧
    ∀ (S : Sodium) (asked : Set (Bytes × Bytes)), asked.InjOn (fun q => S.generichash q.1 q.2) →
      ∀ (c c' : ProofContext) (key key' proof : Key), c.Separated c' → (key.1, c.message) ∈ asked →
        (key'.1, c'.message) ∈ asked → c.proof S key = .ok proof → c'.verify S proof key' = true →
        c = c' ∧ key = key' := by
  refine ⟨fun c c' hc h => ProofContext.message_inj hc h, ?_⟩
  intro S asked hfree c c' key key' proof hc hasked hasked' hproof hverify
  have hhash := ProofContext.generichash_of_proof hproof
  have hhash' := ProofContext.generichash_of_proof (ProofContext.proof_of_verify hverify)
  obtain ⟨hkey, hmessage⟩ := Prod.mk.inj (hfree hasked hasked' (hhash.trans hhash'.symm))
  exact ⟨ProofContext.message_inj hc hmessage, Subtype.ext hkey⟩

/-- A hash that only keeps the end of the message: enough to run the model. -/
def Sodium.tailHash : Sodium :=
  { Sodium.keyTagged with generichash := fun _ m => .ok ⟨(List.replicate keyLen 0 ++ m).drop m.length, by simp⟩ }

/-- The proof of a reset with one salt is not accepted with another. -/
theorem proofs_separate_salts :
    let c := ProofContext.resetDecision (ascii "client") 6 (List.replicate 32 7) 2 true (List.replicate 32 1)
    let c' := ProofContext.resetDecision (ascii "client") 6 (List.replicate 32 7) 2 true (List.replicate 32 2)
    ∃ proof, c.proof .tailHash zeroKey = .ok proof ∧ c.verify .tailHash proof zeroKey = true ∧
      c'.verify .tailHash proof zeroKey = false := by
  intro c c'
  refine ⟨⟨List.replicate 32 1, rfl⟩, by decide +kernel, by decide +kernel, Bool.eq_false_iff.mpr fun hverify => ?_⟩
  have hfree : Set.InjOn (fun q : Bytes × Bytes => Sodium.tailHash.generichash q.1 q.2)
      {(zeroKey.1, c.message), (zeroKey.1, c'.message)} := by
    have hne : Sodium.tailHash.generichash zeroKey.1 c.message ≠ Sodium.tailHash.generichash zeroKey.1 c'.message := by
      decide +kernel
    rintro q (rfl | rfl) q' (rfl | rfl) h
    · rfl
    · exact absurd h hne
    · exact absurd h hne.symm
    · rfl
  have hsame := (proofs_separate.2 .tailHash _ hfree c c' zeroKey zeroKey ⟨List.replicate 32 1, rfl⟩
    ⟨by decide +kernel, by decide +kernel⟩ (.inl rfl) (.inr rfl) (by decide +kernel) hverify).1
  exact absurd hsame (by decide +kernel)

end EternalTerminal
