import EternalTerminal.Core.Crypto

/-!
# Core — the nonces of a session

The two handlers of a session under any interleaving of calls.  A nonce is a counter of 23 bytes below the byte of
the direction: after `n` messages since the handler was made or rekeyed its value is `n` above that byte
(`CryptoRun.value_nonce`).  Fewer than `2 ^ 184` messages never carry into the byte, so that a nonce comes back in its
own direction only, and only after a rekey to the key it comes back under.
-/

namespace EternalTerminal
open List Bytes CryptoHandler Function

/-- The two handlers of a session. -/
inductive Direction where
  | clientToServer
  | serverToClient
  deriving DecidableEq

namespace Direction

def byte : Direction → UInt8
  | clientToServer => dirClientToServer
  | serverToClient => dirServerToClient

theorem byte_le_one (d : Direction) : d.byte.toNat ≤ 1 := by
  cases d with
  | clientToServer | serverToClient => decide

theorem byte_injective : Injective fun d : Direction => d.byte.toNat := by
  intro d d' h
  cases d with
  | clientToServer | serverToClient =>
    cases d' with
    | clientToServer | serverToClient => first | rfl | cases h

end Direction

/-- A call on a handler. -/
inductive CryptoCall where
  | encrypt (plaintext : Bytes)
  | decrypt (ciphertext : Bytes)
  | rekey (salt : Bytes)

/-- What a call did with the nonce. -/
inductive NonceUse where
  /-- It sealed or opened a message. -/
  | used (nonce : Nonce) (key : Key)
  | rekeyed (key : Key)
  | failed

namespace CryptoHandler

def encrypt (S : Sodium) (h : CryptoHandler) (plaintext : Bytes) : Bytes × CryptoHandler :=
  let h := h.bump
  (S.secretbox plaintext h.nonce h.baseKey, h)

def call (S : Sodium) (h : CryptoHandler) : CryptoCall → NonceUse × CryptoHandler
  | .encrypt plaintext =>
    let (_, h) := h.encrypt S plaintext
    (.used h.nonce h.baseKey, h)
  | .decrypt ciphertext =>
    match h.decrypt S ciphertext with
    | (.ok _, h) => (.used h.nonce h.baseKey, h)
    | (.error _, h) => (.failed, h)
  | .rekey salt =>
    match h.rekey S salt with
    | .ok h => (.rekeyed h.baseKey, h)
    | .error _ => (.failed, h)

theorem call_cases (S : Sodium) (h : CryptoHandler) (c : CryptoCall) :
    h.call S c = (.used h.bump.nonce h.baseKey, h.bump) ∨
      (∃ key, h.call S c = (.rekeyed key, { h with baseKey := key, nonce := startNonce h.direction })) ∨
      h.call S c = (.failed, h) := by
  cases c with
  | encrypt plaintext => exact .inl rfl
  | decrypt ciphertext =>
    simp only [call, decrypt]
    by_cases hshort : ciphertext.length < macLen
    · simp [hshort]
    · cases hopen : S.secretboxOpen ciphertext h.bump.nonce h.bump.baseKey with
      | some out => simp [hshort]
      | none => simp [hshort]
  | rekey salt =>
    simp only [call, rekey]
    by_cases hsalt : salt.length ≠ epochSaltBytes
    · simp [hsalt]
    · cases hhash : S.generichash h.originalKey salt with
      | ok derived => simp [hsalt]
      | error e => simp [hsalt]

end CryptoHandler

/-- Calls on the two handlers of a session, with what they did, oldest first. -/
inductive CryptoRun (S : Sodium) (key : Key) : (Direction → CryptoHandler) → List (Direction × NonceUse) → Prop where
  | new : CryptoRun S key (fun d => .new key d.byte) []
  | call {handlers : Direction → CryptoHandler} {trace : List (Direction × NonceUse)}
      (run : CryptoRun S key handlers trace) (d : Direction) (c : CryptoCall) :
      CryptoRun S key (update handlers d ((handlers d).call S c).2)
        (trace ++ [(d, ((handlers d).call S c).1)])

def NonceUse.count (n : Nat) : NonceUse → Nat
  | .used _ _ => n + 1
  | .rekeyed _ => 0
  | .failed => n

/-- How many messages a handler has sealed or opened since its last rekey. -/
def usesSinceRekey (d : Direction) (trace : List (Direction × NonceUse)) : Nat :=
  trace.foldl (fun n e => if e.1 = d then e.2.count n else n) 0

theorem usesSinceRekey_snoc (d d' : Direction) (use : NonceUse) (trace : List (Direction × NonceUse)) :
    usesSinceRekey d (trace ++ [(d', use)]) =
      if d' = d then use.count (usesSinceRekey d trace) else usesSinceRekey d trace := by
  simp [usesSinceRekey]

theorem usesSinceRekey_le_length (d : Direction) (trace : List (Direction × NonceUse)) :
    usesSinceRekey d trace ≤ trace.length := by
  induction trace using List.reverseRecOn with
  | nil => exact le_rfl
  | append_singleton trace e ih =>
    obtain ⟨d', use⟩ := e
    rw [usesSinceRekey_snoc, length_append, length_singleton]
    cases use with
    | used | rekeyed | failed => simp only [NonceUse.count]; split <;> omega

theorem value_startNonce (d : Direction) :
    leValue (startNonce d.byte).1 = 256 ^ 23 * d.byte.toNat := by
  cases d with
  | clientToServer => decide +kernel
  | serverToClient => decide +kernel

theorem value_bump (n : Nonce) : leValue n.bump.1 = (leValue n.1 + 1) % 256 ^ nonceLen := by
  rw [Nonce.bump, leValue_leSucc, n.2]

namespace CryptoRun
variable {S : Sodium} {key : Key} {handlers : Direction → CryptoHandler} {trace : List (Direction × NonceUse)}

/-- The key and the direction of a handler stay. -/
theorem origin (run : CryptoRun S key handlers trace) (d : Direction) :
    (handlers d).originalKey = key ∧ (handlers d).direction = d.byte := by
  induction run with
  | new => exact ⟨rfl, rfl⟩
  | @call handlers trace run d' c ih =>
    by_cases hd : d = d'
    · subst hd
      rw [update_self]
      rcases (handlers d).call_cases S c with h | ⟨_, h⟩ | h
      all_goals
        rw [h]
        exact ih
    · rwa [update_of_ne hd]

/-- **The nonce counts the messages** since the last rekey, above the byte of the direction. -/
theorem value_nonce (run : CryptoRun S key handlers trace) (d : Direction) :
    leValue (handlers d).nonce.1 = (256 ^ 23 * d.byte.toNat + usesSinceRekey d trace) % 256 ^ nonceLen := by
  have hstart : 256 ^ 23 * d.byte.toNat < 256 ^ nonceLen := by
    have hbyte := d.byte_le_one
    norm_num [nonceLen]
    omega
  induction run with
  | new => exact (value_startNonce d).trans (Nat.mod_eq_of_lt hstart).symm
  | @call handlers trace run d' c ih =>
    rw [usesSinceRekey_snoc]
    by_cases hd : d = d'
    · subst hd
      rw [update_self, if_pos rfl]
      rcases (handlers d).call_cases S c with h | ⟨_, h⟩ | h
      · rw [h, bump_nonce, value_bump, ih, Nat.mod_add_mod]
        rfl
      · rw [h, (run.origin d).2, value_startNonce]
        exact (Nat.mod_eq_of_lt hstart).symm
      · rw [h]
        exact ih
    · rwa [update_of_ne hd, if_neg (Ne.symm hd)]

variable {before after : List (Direction × NonceUse)} {d : Direction} {n : Nonce} {k : Key}
variable (run : CryptoRun S key handlers trace)
include run

/-- Without a rekey the count does not go down; a rekey leaves its key. -/
theorem rekeyed_or_le {between : List (Direction × NonceUse)} (h : trace = before ++ between) :
    (d, .rekeyed (handlers d).baseKey) ∈ between ∨ usesSinceRekey d before ≤ usesSinceRekey d trace := by
  induction run generalizing between with
  | new => simp_all
  | @call handlers trace run d' c ih =>
    cases between using List.reverseRecOn with
    | nil => exact .inr (by rw [h, append_nil])
    | append_singleton between e =>
      rw [← append_assoc] at h
      obtain ⟨htrace, he⟩ := append_inj' h rfl
      rw [← List.singleton_inj.mp he, usesSinceRekey_snoc]
      by_cases hd : d = d'
      · subst hd
        rw [update_self, if_pos rfl]
        rcases (handlers d).call_cases S c with hc | ⟨_, hc⟩ | hc
        · rw [hc]
          exact (ih htrace).imp (mem_append_left _) fun hle => hle.trans (Nat.le_succ _)
        · rw [hc]
          exact .inl (mem_append_right _ (mem_singleton_self _))
        · rw [hc]
          exact (ih htrace).imp (mem_append_left _) id
      · rw [update_of_ne hd, if_neg (Ne.symm hd)]
        exact (ih htrace).imp (mem_append_left _) id

/-- The run up to a message leaves its key in the handler, and the nonce before its own. -/
theorem at_use (h : trace = before ++ (d, .used n k) :: after) :
    ∃ handlers, CryptoRun S key handlers before ∧ (handlers d).bump.nonce = n ∧ (handlers d).baseKey = k := by
  induction run generalizing after with
  | new => simp at h
  | @call handlers trace run d' c ih =>
    cases after using List.reverseRecOn with
    | nil =>
      obtain ⟨rfl, hlast⟩ := append_inj' h rfl
      obtain ⟨rfl, huse⟩ : d' = d ∧ ((handlers d').call S c).1 = .used n k := by simpa using hlast
      refine ⟨_, run, ?_⟩
      rcases (handlers d').call_cases S c with hc | ⟨_, hc⟩ | hc
      all_goals
        rw [hc] at huse
        cases huse
      exact ⟨rfl, rfl⟩
    | append_singleton after e =>
      rw [← cons_append, ← append_assoc] at h
      exact ih (append_inj' h rfl).1

/-- The value of a nonce that was used. -/
theorem value_used (hcount : ∀ t, t <+: trace → ∀ d, usesSinceRekey d t < 2 ^ 184)
    (h : trace = before ++ (d, .used n k) :: after) :
    leValue n.1 = 256 ^ 23 * d.byte.toNat + usesSinceRekey d before + 1 ∧ usesSinceRekey d before + 1 < 256 ^ 23 := by
  have hlt := hcount (before ++ [(d, .used n k)]) ⟨after, by simp [h]⟩ d
  rw [usesSinceRekey_snoc, if_pos rfl, NonceUse.count] at hlt
  obtain ⟨handlers', run', rfl, -⟩ := run.at_use h
  have hbyte := d.byte_le_one
  rw [bump_nonce, value_bump, run'.value_nonce d, Nat.mod_add_mod]
  exact ⟨Nat.mod_eq_of_lt (by norm_num [nonceLen] at hlt ⊢; omega), hlt⟩

end CryptoRun

/-- **Nonces are used once.**  In every interleaving of calls on the two handlers of a session, with fewer than
`2 ^ 184` messages of a handler between its rekeys: two messages under one nonce are of one direction, and between them
its handler was rekeyed to the key of the second; messages of different directions have different nonces; and what a
rekey makes of a handler depends on the passkey, the direction and the salt only. -/
theorem nonce_used_once {S : Sodium} {key : Key} {handlers : Direction → CryptoHandler}
    {trace : List (Direction × NonceUse)} (run : CryptoRun S key handlers trace)
    (hcount : ∀ t, t <+: trace → ∀ d, usesSinceRekey d t < 2 ^ 184) :
    (∀ before between after d d' n k k',
      trace = before ++ (d, .used n k) :: (between ++ (d', .used n k') :: after) →
        d = d' ∧ (d, .rekeyed k') ∈ between) ∧
    (∀ d d' n n' k k', (d, .used n k) ∈ trace → (d', .used n' k') ∈ trace → d ≠ d' → n ≠ n') ∧
    ∀ d salt, (handlers d).rekey S salt = (new key d.byte).rekey S salt := by
  -- the byte of the direction can be read off the value
  have hsame : ∀ {before after before' after'} {d d' n k k'}, trace = before ++ (d, .used n k) :: after →
      trace = before' ++ (d', .used n k') :: after' → d = d' ∧ usesSinceRekey d before = usesSinceRekey d' before' := by
    intro before after before' after' d d' n k k' h h'
    obtain ⟨hvalue, hlt⟩ := run.value_used hcount h
    obtain ⟨hvalue', hlt'⟩ := run.value_used hcount h'
    rw [hvalue] at hvalue'
    norm_num at hvalue' hlt hlt'
    obtain rfl : d = d' := Direction.byte_injective (by dsimp only; omega)
    exact ⟨rfl, by omega⟩
  refine ⟨fun before between after d d' n k k' h => ?_, fun d d' n n' k k' hmem hmem' hne heq => ?_, fun d salt => ?_⟩
  · have hlater : trace = (before ++ (d, .used n k) :: between) ++ (d', .used n k') :: after := by
      rw [h, append_assoc, cons_append]
    obtain ⟨rfl, hcounts⟩ := hsame h hlater
    obtain ⟨handlers', run', -, rfl⟩ := run.at_use hlater
    refine ⟨rfl, (run'.rekeyed_or_le (append_cons ..)).resolve_right fun hle => ?_⟩
    rw [usesSinceRekey_snoc, if_pos rfl, ← hcounts] at hle
    exact absurd hle (Nat.not_succ_le_self _)
  · obtain ⟨before, after, h⟩ := append_of_mem hmem
    obtain ⟨before', after', h'⟩ := append_of_mem hmem'
    exact hne (hsame h (heq ▸ h')).1
  · obtain ⟨hkey, hdirection⟩ := run.origin d
    have hhandler : ∀ h : CryptoHandler, h.rekey S salt =
        if salt.length ≠ epochSaltBytes then .error .proofError
        else (S.generichash h.originalKey salt).map fun derived =>
          ⟨h.originalKey, derived, startNonce h.direction, h.direction⟩ := fun _ => rfl
    rw [hhandler, hhandler, hkey, hdirection]
    rfl

/-- A rekey and a message, twice. -/
def rekeyedTwice (n : Nonce) : List (Direction × NonceUse) :=
  [(.clientToServer, .rekeyed zeroKey), (.clientToServer, .used n zeroKey), (.clientToServer, .rekeyed zeroKey),
    (.clientToServer, .used n zeroKey)]

theorem rekeyedTwice_run : ∃ handlers n, CryptoRun .keyTagged zeroKey handlers (rekeyedTwice n) ∧
    ∀ t, t <+: rekeyedTwice n → ∀ d, usesSinceRekey d t < 2 ^ 184 := by
  let salt : Bytes := List.replicate epochSaltBytes 0
  refine ⟨_, (startNonce dirClientToServer).bump, (((CryptoRun.new.call .clientToServer (.rekey salt)).call
    .clientToServer (.encrypt [])).call .clientToServer (.rekey salt)).call .clientToServer (.encrypt []), fun t ht d => ?_⟩
  exact ((usesSinceRekey_le_length d t).trans ht.length_le).trans_lt (by norm_num [rekeyedTwice])

/-- A second rekey with the salt of the first starts again from its key and its nonce. -/
theorem nonce_reused_with_salt : ∃ handlers trace before between d n k, CryptoRun .keyTagged zeroKey handlers trace ∧
    (∀ t, t <+: trace → ∀ d, usesSinceRekey d t < 2 ^ 184) ∧
    trace = before ++ (d, .used n k) :: (between ++ [(d, .used n k)]) := by
  obtain ⟨handlers, n, run, hcount⟩ := rekeyedTwice_run
  exact ⟨handlers, _, [_], [_], _, n, _, run, hcount, rfl⟩

theorem nonce_used_once_rekeyed : ∃ handlers n, CryptoRun .keyTagged zeroKey handlers (rekeyedTwice n) ∧
    ∀ salt, (handlers .clientToServer).rekey .keyTagged salt =
      (new zeroKey dirClientToServer).rekey .keyTagged salt := by
  obtain ⟨handlers, n, run, hcount⟩ := rekeyedTwice_run
  exact ⟨handlers, n, run, (nonce_used_once run hcount).2.2 .clientToServer⟩

end EternalTerminal
