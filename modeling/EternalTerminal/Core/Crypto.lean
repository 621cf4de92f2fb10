import EternalTerminal.Lib.Bytes

/-!
# Core — crypto

`CryptoHandler`: one direction of a session's secretbox stream.  Its nonce is a 24-byte
little-endian counter whose last byte starts as the direction; it is bumped before every call
and put back when a ciphertext does not open.

libsodium and BLAKE2b are not part of the repository.  `Sodium` is what the code calls of
them: the three functions, and the one length the wrapper crate fixes itself (the box is the
plaintext and a 16-byte tag).  `Aead` is a `Sodium` that may look at what was sealed so far and
opens exactly that (`open_iff`); the sealing log is a ghost of the run, not a value of the code.
-/

namespace EternalTerminal
open List

def keyLen : Nat := 32
def nonceLen : Nat := 24
def macLen : Nat := 16
/-- libsodium keyed BLAKE2b output and the salt of a reset. -/
def epochSaltBytes : Nat := 32

def dirClientToServer : UInt8 := 0
def dirServerToClient : UInt8 := 1

/-- A secretbox key. -/
abbrev Key := { bs : Bytes // bs.length = keyLen }
/-- A secretbox nonce. -/
abbrev Nonce := { bs : Bytes // bs.length = nonceLen }

/-- Why a ciphertext does not open. -/
inductive DecryptError where
  | short
  | badMac
  deriving DecidableEq

/-- `connection proof is invalid`. -/
inductive ProofError where
  | proofError
  deriving DecidableEq

/-- The primitives of libsodium and BLAKE2b the code calls. -/
structure Sodium where
  secretbox : Bytes → Nonce → Key → Bytes
  secretboxOpen : Bytes → Nonce → Key → Option Bytes
  generichash : Bytes → Bytes → Except ProofError Key
  length_secretbox : ∀ p n k, (secretbox p n k).length = p.length + macLen

attribute [simp] Sodium.length_secretbox

/-- What is sealed under a nonce and key opens under them. -/
def Sodium.Correct (S : Sodium) : Prop :=
  ∀ p n k, S.secretboxOpen (S.secretbox p n k) n k = some p

/-- `crypto.rs`: the key and the nonce of one direction. -/
structure CryptoHandler where
  /-- Every reset derives from this key; it is never overwritten. -/
  originalKey : Key
  baseKey : Key
  nonce : Nonce
  direction : UInt8
  deriving DecidableEq

namespace CryptoHandler

/-- The nonce before the first call: zero but for the direction byte. -/
def startNonce (direction : UInt8) : Nonce :=
  ⟨List.replicate (nonceLen - 1) 0 ++ [direction], by simp [nonceLen]⟩

def new (key : Key) (direction : UInt8) : CryptoHandler where
  originalKey := key
  baseKey := key
  nonce := startNonce direction
  direction := direction

/-- Derive a new epoch key from the original key and reset the nonce. -/
def rekey (S : Sodium) (h : CryptoHandler) (salt : Bytes) : Except ProofError CryptoHandler :=
  if salt.length ≠ epochSaltBytes then .error .proofError
  else do
    let derived ← S.generichash h.originalKey salt
    return { h with baseKey := derived, nonce := startNonce h.direction }

end CryptoHandler

/-- One increment of the nonce counter. -/
def Nonce.bump (n : Nonce) : Nonce := ⟨Bytes.leSucc n.1, by rw [Bytes.length_leSucc, n.2]⟩

namespace CryptoHandler

def bump (h : CryptoHandler) : CryptoHandler := { h with nonce := h.nonce.bump }

def nextNonceAndKey (h : CryptoHandler) : (Nonce × Key) × CryptoHandler :=
  let h := h.bump
  ((h.nonce, h.baseKey), h)

/-- Seal under an explicit nonce and key, behind a cleartext head. -/
def encryptDetached (S : Sodium) (head plaintext : Bytes) (nonce : Nonce) (key : Key) : Bytes :=
  head ++ S.secretbox plaintext nonce key

/-- The nonce moves only when the ciphertext opens. -/
def decrypt (S : Sodium) (h : CryptoHandler) (ciphertext : Bytes) :
    Except DecryptError Bytes × CryptoHandler :=
  if ciphertext.length < macLen then (.error .short, h)
  else
    let bumped := h.bump
    match S.secretboxOpen ciphertext bumped.nonce bumped.baseKey with
    | some out => (.ok out, bumped)
    | none => (.error .badMac, h)

/-- A handler that has sealed, or opened, `n` messages since it was made or rekeyed. -/
def advance (h : CryptoHandler) (n : Nat) : CryptoHandler := bump^[n] h

section
variable (h : CryptoHandler)

@[simp] theorem bump_baseKey : h.bump.baseKey = h.baseKey := rfl

@[simp] theorem bump_nonce : h.bump.nonce = h.nonce.bump := rfl

theorem advance_succ (n : Nat) : h.advance (n + 1) = (h.advance n).bump :=
  Function.iterate_succ_apply' _ _ _

theorem advance_add (m n : Nat) : h.advance (m + n) = (h.advance m).advance n := by
  rw [advance, Nat.add_comm, Function.iterate_add_apply]; rfl

@[simp] theorem advance_baseKey (n : Nat) : (h.advance n).baseKey = h.baseKey := by
  induction n with
  | zero => rfl
  | succ n ih => rw [advance_succ, bump_baseKey, ih]

theorem advance_nonce (n : Nat) : (h.advance n).nonce.1 = Bytes.leSucc^[n] h.nonce.1 := by
  induction n with
  | zero => rfl
  | succ n ih => rw [advance_succ, Function.iterate_succ_apply', ← ih]; rfl

end

/-- **No nonce twice**, within one period of the counter. -/
theorem advance_nonce_inj {h : CryptoHandler} {i j : Nat} (hi : i < 256 ^ nonceLen)
    (hj : j < 256 ^ nonceLen) (e : (h.advance i).nonce = (h.advance j).nonce) : i = j := by
  have e' := congrArg Subtype.val e
  rw [advance_nonce, advance_nonce] at e'
  exact Bytes.leSucc_iterate_inj (by rwa [h.nonce.2]) (by rwa [h.nonce.2]) e'

end CryptoHandler

/-! ### An ideal AEAD -/

/-- What was sealed so far: plaintext, nonce and key of every call. -/
abbrev SealLog := List (Bytes × Nonce × Key)

/-- An AEAD whose open succeeds exactly on what was sealed under the same key and nonce. -/
structure Aead where
  secretbox : Bytes → Nonce → Key → Bytes
  secretboxOpen : SealLog → Bytes → Nonce → Key → Option Bytes
  generichash : Bytes → Bytes → Except ProofError Key
  length_secretbox : ∀ p n k, (secretbox p n k).length = p.length + macLen
  open_iff : ∀ log c n k p,
    secretboxOpen log c n k = some p ↔ (p, n, k) ∈ log ∧ secretbox p n k = c

namespace Aead

/-- The primitives as they answer after `log`. -/
def sodium (A : Aead) (log : SealLog) : Sodium where
  secretbox := A.secretbox
  secretboxOpen := A.secretboxOpen log
  generichash := A.generichash
  length_secretbox := A.length_secretbox

/-- The ideal AEAD over any injective box: a ciphertext opens when the log has its plaintext. -/
def ofSecretbox (box : Bytes → Nonce → Key → Bytes) (hash : Bytes → Bytes → Except ProofError Key)
    (hlen : ∀ p n k, (box p n k).length = p.length + macLen)
    (hinj : ∀ p q n k, box p n k = box q n k → p = q) : Aead where
  secretbox := box
  secretboxOpen log c n k :=
    (log.find? fun e => e.2.1 = n ∧ e.2.2 = k ∧ box e.1 n k = c).map Prod.fst
  generichash := hash
  length_secretbox := hlen
  open_iff log c n k p := by
    constructor
    · intro h
      obtain ⟨e, he, rfl⟩ := Option.map_eq_some_iff.mp h
      have hp := List.find?_some he
      simp only [decide_eq_true_eq] at hp
      obtain ⟨hn, hk, hb⟩ := hp
      have hm := List.mem_of_find?_eq_some he
      obtain ⟨q, n', k'⟩ := e
      subst hn hk
      exact ⟨hm, hb⟩
    · rintro ⟨hm, hb⟩
      have hsome : (log.find? fun e => e.2.1 = n ∧ e.2.2 = k ∧ box e.1 n k = c).isSome := by
        rw [List.find?_isSome]
        exact ⟨_, hm, by simp [hb]⟩
      obtain ⟨e, he⟩ := Option.isSome_iff_exists.mp hsome
      have hp := List.find?_some he
      simp only [decide_eq_true_eq] at hp
      rw [he, Option.map_some, hinj e.1 p n k (hp.2.2.trans hb.symm)]

/-- A box that only prepends a tag of zeroes: enough to run the model. -/
def plain : Aead :=
  ofSecretbox (fun p _ _ => List.replicate macLen 0 ++ p)
    (fun key _ => if h : key.length = keyLen then .ok ⟨key, h⟩ else .error .proofError)
    (by intro p n k; simp [Nat.add_comm]) (by intro p q n k h; exact append_cancel_left h)

/-- The primitives of `plain` before anything is sealed. -/
def plainSodium : Sodium := plain.sodium []

end Aead

/-- A box whose tag is half of the key: enough to run the model with several keys. -/
def Sodium.keyTagged : Sodium where
  secretbox p _ k := k.1.take macLen ++ p
  secretboxOpen c _ k := if c.take macLen = k.1.take macLen then some (c.drop macLen) else none
  generichash key _ := if h : key.length = keyLen then .ok ⟨key, h⟩ else .error .proofError
  length_secretbox p n k := by
    rw [length_append, length_take, k.2, Nat.add_comm]
    rfl

theorem Sodium.keyTagged_correct : Sodium.keyTagged.Correct := by
  intro p n k
  have hlen : (k.1.take macLen).length = macLen := by
    rw [length_take, k.2]
    rfl
  simp only [keyTagged]
  rw [take_left' hlen, drop_left' hlen, if_pos rfl]

/-- A key to run the model with. -/
def zeroKey : Key := ⟨List.replicate keyLen 0, length_replicate⟩

end EternalTerminal
