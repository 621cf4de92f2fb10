import EternalTerminal.Lib.Bytes

/-!
# Net — the SOCKS handshake of a dynamic forward

What a SOCKS client sends before its connection is forwarded (`socks.rs`), and the loop that reads it and
writes the replies (`finish_socks_handshake`).  The handshake keeps what it has not parsed yet, and every
read parses it again from the front.

Main result: `stable_dispatch`.
-/

namespace EternalTerminal
open Bytes List
open Nat (le_of_not_lt)

def socks4Version : UInt8 := 0x04
def socks4Connect : UInt8 := 0x01
def socks5Version : UInt8 := 0x05
def socks5NoAuth : UInt8 := 0x00
def socks5NoAcceptable : UInt8 := 0xff
def socks5Connect : UInt8 := 0x01
def socks5Ipv4 : UInt8 := 0x01
def socks5Domain : UInt8 := 0x03
def socks5Ipv6 : UInt8 := 0x04
def maxHandshake : Nat := 4096
def maxIdent : Nat := 255

/-- What a call of the parser answers. -/
inductive SocksParseStatus where
  | needMore
  | complete
  | error
  deriving DecidableEq

/-- A destination, as it decodes. -/
structure SocketEndpoint where
  name : Option String
  port : Option Int
  deriving DecidableEq

/-- `socks.rs`: the unparsed input and what the parser decided. -/
structure SocksHandshake where
  input : Bytes := []
  reply : Bytes := []
  destination : SocketEndpoint := ⟨none, none⟩
  error : Option String := none
  socks5AuthDone : Bool := false
  complete : Bool := false
  version : UInt8 := 0
  earlyData : Bytes := []

/-- The standard library's renderings of a host: `String::from_utf8_lossy`, and `Ipv6Addr::to_string` of 16
octets. -/
structure HostText where
  fromUtf8Lossy : Bytes → String
  ipv6 : Bytes → String

/-- What a request parser makes of the bytes so far: a host with its port, and how many bytes the request took. -/
inductive Parsed where
  | needMore
  | error (message : String)
  | destination (host : String) (port : Nat) (consumed : Nat)
  deriving DecidableEq

def dotted (ip : Bytes) : String :=
  toString (ip.getD 0 0) ++ "." ++ toString (ip.getD 1 0) ++ "." ++ toString (ip.getD 2 0) ++ "." ++
    toString (ip.getD 3 0)

/-! ### The request parsers -/

/-- How the scan for the NUL that ends an identifier went. -/
inductive IdentScan where
  | tooLong
  | unterminated
  | ends (length : Nat)

def scanIdent : Nat → Bytes → IdentScan
  | _, [] => .unterminated
  | n, byte :: rest =>
    if byte = 0 then .ends n
    else if maxIdent ≤ n then .tooLong
    else scanIdent (n + 1) rest

/-- An address `0.0.0.x` says that a domain name follows the userid. -/
def isSocks4a (ip : Bytes) : Bool :=
  ip.getD 0 0 = 0 ∧ ip.getD 1 0 = 0 ∧ ip.getD 2 0 = 0 ∧ ip.getD 3 0 ≠ 0

def socks4Request (text : HostText) (input : Bytes) : Parsed :=
  if input.length < 8 then .needMore
  else if input.getD 1 0 ≠ socks4Connect then .error "SOCKS4 only supports CONNECT"
  else
    let port := beValue (slice 2 4 input)
    let ip := slice 4 8 input
    match scanIdent 0 (input.drop 8) with
    | .tooLong => .error "SOCKS4 userid too long"
    | .unterminated =>
      if maxIdent + 8 < input.length then .error "SOCKS4 userid too long" else .needMore
    | .ends n =>
      let useridEnd := 8 + n + 1
      if isSocks4a ip then
        match scanIdent 0 (input.drop useridEnd) with
        | .tooLong => .error "SOCKS4a domain too long"
        | .unterminated =>
          if maxIdent < input.length - useridEnd then .error "SOCKS4a domain too long" else .needMore
        | .ends m =>
          .destination (text.fromUtf8Lossy (slice useridEnd (useridEnd + m) input)) port
            (useridEnd + m + 1)
      else .destination (dotted ip) port useridEnd

def socks5Request (text : HostText) (input : Bytes) : Parsed :=
  if input.length < 4 then .needMore
  else if input.getD 0 0 ≠ socks5Version then .error "Invalid SOCKS5 request version"
  else if input.getD 1 0 ≠ socks5Connect then .error "SOCKS5 only supports CONNECT"
  else
    let addressed (host : String) (portOffset : Nat) : Parsed :=
      if input.length < portOffset + 2 then .needMore
      else .destination host (beValue (slice portOffset (portOffset + 2) input)) (portOffset + 2)
    let atyp := input.getD 3 0
    if atyp = socks5Ipv4 then
      if input.length < 10 then .needMore else addressed (dotted (slice 4 8 input)) 8
    else if atyp = socks5Domain then
      if input.length < 5 then .needMore
      else
        let len := (input.getD 4 0).toNat
        if input.length < 5 + len + 2 then .needMore
        else addressed (text.fromUtf8Lossy (slice 5 (5 + len) input)) (5 + len)
    else if atyp = socks5Ipv6 then
      if input.length < 22 then .needMore else addressed (text.ipv6 (slice 4 20 input)) 20
    else .error "Unsupported SOCKS5 address type"

/-- A host that is a path names a Unix socket, which has no port. -/
def endpoint (host : String) (port : Nat) : SocketEndpoint :=
  if host.toList.head? = some '/' then ⟨some host, none⟩ else ⟨some host, some port⟩

namespace SocksHandshake

def push (state : SocksHandshake) (bytes : Bytes) : SocksHandshake :=
  { state with input := state.input ++ bytes }

def finishDestination (state : SocksHandshake) (host : String) (port : Nat) (version : UInt8)
    (consumed : Nat) : SocksParseStatus × SocksHandshake :=
  (.complete, { state with
      destination := endpoint host port
      version := version
      earlyData := state.input.drop consumed
      input := []
      complete := true })

/-- The state and the status a request parser leaves. -/
def settle (state : SocksHandshake) (version : UInt8) : Parsed → SocksParseStatus × SocksHandshake
  | .needMore => (.needMore, state)
  | .error message => (.error, { state with error := some message })
  | .destination host port consumed => state.finishDestination host port version consumed

def parseSocks4 (text : HostText) (state : SocksHandshake) : SocksParseStatus × SocksHandshake :=
  state.settle socks4Version (socks4Request text state.input)

def parseSocks5Request (text : HostText) (state : SocksHandshake) : SocksParseStatus × SocksHandshake :=
  state.settle socks5Version (socks5Request text state.input)

def parseSocks5Auth (state : SocksHandshake) : SocksParseStatus × SocksHandshake :=
  if state.input.length < 2 then (.needMore, state)
  else
    let methods := (state.input.getD 1 0).toNat
    if state.input.length < 2 + methods then (.needMore, state)
    else if (slice 2 (2 + methods) state.input).contains socks5NoAuth then
      (.needMore, { state with
          reply := [socks5Version, socks5NoAuth]
          input := state.input.drop (2 + methods)
          socks5AuthDone := true })
    else
      (.error, { state with
          reply := [socks5Version, socks5NoAcceptable]
          error := some "SOCKS5 client did not offer no-auth" })

def feed (text : HostText) (state : SocksHandshake) : SocksParseStatus × SocksHandshake :=
  if state.complete then
    (.complete, { state with earlyData := state.earlyData ++ state.input, input := [] })
  else if maxHandshake < state.input.length then
    (.error, { state with error := some "SOCKS handshake too large" })
  else
    match state.input with
    | [] => (.needMore, state)
    | version :: _ =>
      if version = socks4Version then parseSocks4 text state
      else if version = socks5Version then
        if state.socks5AuthDone then parseSocks5Request text state
        else
          let (status, authed) := parseSocks5Auth state
          if status = .error then (status, authed)
          else if authed.input.isEmpty then (.needMore, authed)
          else
            -- The request is parsed whether or not the method selection is complete.
            let (status, parsed) := parseSocks5Request text { authed with reply := [] }
            (status, { parsed with reply := authed.reply ++ parsed.reply })
      else (.error, { state with error := some "Unsupported SOCKS version" })

end SocksHandshake
variable {p : Bytes}
variable (q : Bytes) (text : HostText) (input : Bytes)

/-! ### The loop -/

/-- What came of a handshake: what was written to the client, and for an accepted one the destination, the version and
the bytes to forward. -/
inductive SocksOutcome where
  | needMore (written : Bytes)
  | rejected (written : Bytes)
  | accepted (destination : SocketEndpoint) (version : UInt8) (earlyData written : Bytes)
  deriving DecidableEq

/-- The loop of `finish_socks_handshake` on the reads to come: bytes that are read after the request is
complete are early data. -/
def socksLoop (text : HostText) (state : SocksHandshake) (written : Bytes) (reads : List Bytes) :
    SocksOutcome :=
  match state.feed text with
  | (.complete, state) =>
    .accepted state.destination state.version (state.earlyData ++ reads.flatten) written
  | (.error, state) => .rejected (written ++ state.reply)
  | (.needMore, state) =>
    match reads with
    | [] => .needMore (written ++ state.reply)
    | read :: reads =>
      socksLoop text ({ state with reply := [] }.push read) (written ++ state.reply) reads

def finishSocksHandshake (text : HostText) (reads : List Bytes) : SocksOutcome :=
  socksLoop text {} [] reads

/-! ### What a parser decides, it decides of every extension -/

/-- A parser that has decided about some bytes has decided about every longer input, and took no more than
it was given. -/
structure Stable (parse : Bytes → Parsed) : Prop where
  append : ∀ p q, parse p ≠ .needMore → parse (p ++ q) = parse p
  consumed : ∀ p host port n, parse p = .destination host port n → n ≤ p.length

/-- What was decided stays decided. -/
def Keeps (parsed parsed' : Parsed) : Prop := parsed ≠ .needMore → parsed' = parsed

namespace Keeps
variable {a a' b b' : Parsed} {c c' : Prop} [Decidable c] [Decidable c']

theorem needMore : Keeps .needMore b := fun hne => absurd rfl hne

/-- Bytes that are enough stay enough. -/
theorem wait (hc : c' → c) (hf : ¬ c → Keeps a b) :
    Keeps (if c then .needMore else a) (if c' then .needMore else b) := by
  by_cases h : c
  · rw [if_pos h]
    exact needMore
  · rw [if_neg h, if_neg (mt hc h)]
    exact hf h

theorem ite (hc : c ↔ c') (ht : c → Keeps a b) (hf : ¬ c → Keeps a' b') :
    Keeps (if c then a else a') (if c' then b else b') := by
  by_cases h : c
  · rw [if_pos h, if_pos (hc.mp h)]
    exact ht h
  · rw [if_neg h, if_neg (mt hc.mpr h)]
    exact hf h

end Keeps

theorem getD_append_left {i : Nat} (h : i < p.length) :
    (p ++ q).getD i 0 = p.getD i 0 := by
  rw [List.getD_eq_getElem?_getD, List.getD_eq_getElem?_getD, List.getElem?_append_left h]

/-- The bytes before the first NUL. -/
def ident (p : Bytes) : Bytes := p.takeWhile (· != 0)

theorem length_ident_le (p : Bytes) : (ident p).length ≤ p.length := (takeWhile_sublist _).length_le

theorem ident_append (h : (ident p).length < p.length) :
    ident (p ++ q) = ident p := by
  rw [ident, takeWhile_append, if_neg (by simpa [ident] using h.ne)]
  rfl

theorem length_ident_le_append (p q : Bytes) : (ident p).length ≤ (ident (p ++ q)).length := by
  by_cases h : (ident p).length < p.length
  · rw [ident_append q h]
  have hp : (ident p).length = p.length := le_antisymm (length_ident_le p) (le_of_not_lt h)
  rw [ident, ident, takeWhile_append, if_pos (by simpa [ident] using hp), length_append]
  rw [ident] at hp
  omega

/-- The scan stops at the first NUL unless more than `maxIdent` bytes come before it. -/
theorem scanIdent_eq {n : Nat} (p : Bytes) (hn : n ≤ maxIdent) :
    scanIdent n p =
      if maxIdent < n + (ident p).length then .tooLong
      else if (ident p).length < p.length then .ends (n + (ident p).length) else .unterminated := by
  induction p generalizing n with
  | nil => simp [scanIdent, ident, Nat.not_lt.mpr hn]
  | cons byte rest ih =>
    by_cases hbyte : byte = 0
    · simp [scanIdent, ident, hbyte, Nat.not_lt.mpr hn]
    have hlen : (ident (byte :: rest)).length = (ident rest).length + 1 := by
      simp [ident, hbyte]
    rw [scanIdent, if_neg hbyte, hlen]
    by_cases hmax : maxIdent ≤ n
    · rw [if_pos hmax, if_pos (by omega)]
    · rw [if_neg hmax, ih (by omega), length_cons, Nat.add_right_comm, Nat.add_assoc]
      simp only [Nat.add_lt_add_iff_right]

theorem scanIdent_tooLong (h : maxIdent < (ident p).length) : scanIdent 0 p = .tooLong := by
  rw [scanIdent_eq p (Nat.zero_le _), Nat.zero_add, if_pos h]

theorem scanIdent_unterminated (h : ¬ maxIdent < (ident p).length)
    (hp : p.length ≤ (ident p).length) : scanIdent 0 p = .unterminated := by
  rw [scanIdent_eq p (Nat.zero_le _), Nat.zero_add, if_neg h, if_neg (Nat.not_lt.mpr hp)]

theorem scanIdent_ends (h : ¬ maxIdent < (ident p).length)
    (hp : (ident p).length < p.length) : scanIdent 0 p = .ends (ident p).length := by
  rw [scanIdent_eq p (Nat.zero_le _), Nat.zero_add, if_neg h, if_pos hp]

/-- The userid of a SOCKS4 request. -/
def userid (input : Bytes) : Bytes := ident (input.drop 8)

/-- Where the userid's NUL ends. -/
def useridEnd (input : Bytes) : Nat := 8 + (userid input).length + 1

/-- The domain name of a SOCKS4a request. -/
def domain (input : Bytes) : Bytes := ident (input.drop (useridEnd input))

theorem socks4Request_eq :
    socks4Request text input =
      if input.length < 8 then .needMore
      else if input.getD 1 0 ≠ socks4Connect then .error "SOCKS4 only supports CONNECT"
      else if maxIdent < (userid input).length then .error "SOCKS4 userid too long"
      else if input.length < useridEnd input then .needMore
      else if isSocks4a (slice 4 8 input) then
        if maxIdent < (domain input).length then .error "SOCKS4a domain too long"
        else if input.length ≤ useridEnd input + (domain input).length then .needMore
        else .destination
          (text.fromUtf8Lossy (slice (useridEnd input) (useridEnd input + (domain input).length) input))
          (beValue (slice 2 4 input)) (useridEnd input + (domain input).length + 1)
      else .destination (dotted (slice 4 8 input)) (beValue (slice 2 4 input)) (useridEnd input) := by
  refine ite_congr rfl (fun _ => rfl) fun h8 => ite_congr rfl (fun _ => rfl) fun _ => ?_
  have hle := length_ident_le (input.drop 8)
  have hstart : useridEnd input = 8 + (userid input).length + 1 := rfl
  have hlen := length_drop (i := 8) (l := input)
  by_cases huser : maxIdent < (userid input).length
  · simp only [scanIdent_tooLong huser, if_pos huser]
  rw [if_neg huser]
  by_cases hend : input.length < useridEnd input
  · -- The length check after the scan never fires: the scan has bounded the userid already.
    have hfew : ¬ maxIdent + 8 < input.length := by omega
    have hsh : (input.drop 8).length ≤ (userid input).length := by omega
    simp only [scanIdent_unterminated huser hsh, if_neg hfew, if_pos hend]
  have hlong : (userid input).length < (input.drop 8).length := by omega
  rw [if_neg hend, scanIdent_ends huser hlong]
  refine ite_congr rfl (fun _ => ?_) fun _ => rfl
  have hlen := length_drop (i := useridEnd input) (l := input)
  rw [← userid, ← hstart]
  by_cases hdom : maxIdent < (domain input).length
  · simp only [scanIdent_tooLong hdom, if_pos hdom]
  rw [if_neg hdom]
  by_cases hsh : input.length ≤ useridEnd input + (domain input).length
  · have hfew : ¬ maxIdent < input.length - useridEnd input := by omega
    have hopen : (input.drop (useridEnd input)).length ≤ (domain input).length := by omega
    simp only [scanIdent_unterminated hdom hopen, if_neg hfew, if_pos hsh]
  have hcl : (domain input).length < (input.drop (useridEnd input)).length := by omega
  rw [if_neg hsh, scanIdent_ends hdom hcl]
  rfl

theorem userid_append (h : useridEnd p ≤ p.length) : userid (p ++ q) = userid p := by
  rw [useridEnd, userid] at h
  rw [userid, drop_append_of_le_length (by omega), ident_append _ (by rw [length_drop]; omega)]
  rfl

theorem length_userid_le_append (h : 8 ≤ p.length) :
    (userid p).length ≤ (userid (p ++ q)).length := by
  rw [userid, userid, drop_append_of_le_length h]
  exact length_ident_le_append _ _

theorem useridEnd_append (h : useridEnd p ≤ p.length) :
    useridEnd (p ++ q) = useridEnd p := by
  rw [useridEnd, userid_append q h, useridEnd]

theorem domain_append (h : useridEnd p ≤ p.length) :
    domain (p ++ q) = ident (p.drop (useridEnd p) ++ q) := by
  rw [domain, useridEnd_append q h, drop_append_of_le_length h]

theorem length_lt_of_append {n : Nat} (h : (p ++ q).length < n) : p.length < n := by
  rw [length_append] at h
  omega

theorem stable_socks4Request : Stable (socks4Request text) where
  append p q := by
    rw [socks4Request_eq, socks4Request_eq]
    refine Keeps.wait (length_lt_of_append q) fun h8 => ?_
    rw [getD_append_left q (by omega), slice_append_right (a := 4) q (show 8 ≤ p.length by omega),
      slice_append_right (a := 2) q (show 4 ≤ p.length by omega)]
    refine .ite Iff.rfl (fun _ _ => rfl) fun _ => ?_
    by_cases hend : p.length < useridEnd p
    · -- the userid may still grow, so it is only refused
      have hgrow := length_userid_le_append q (le_of_not_lt h8)
      by_cases huser : maxIdent < (userid p).length
      · rw [if_pos huser, if_pos (by omega)]
        exact fun _ => rfl
      · rw [if_neg huser, if_pos hend]
        exact .needMore
    have hcl := le_of_not_lt hend
    rw [useridEnd_append q hcl, userid_append q hcl, domain_append q hcl]
    refine .ite Iff.rfl (fun _ _ => rfl) fun _ => .wait (length_lt_of_append q) fun _ => ?_
    refine .ite Iff.rfl (fun _ => ?_) fun _ _ => rfl
    by_cases hsh : p.length ≤ useridEnd p + (domain p).length
    · have hgrow := length_ident_le_append (p.drop (useridEnd p)) q
      rw [← domain] at hgrow
      by_cases hdom : maxIdent < (domain p).length
      · rw [if_pos hdom, if_pos (by omega)]
        exact fun _ => rfl
      · rw [if_neg hdom, if_pos hsh]
        exact .needMore
    rw [ident_append q (by rw [length_drop, ← domain]; omega), ← domain, slice_append_right q (by omega)]
    exact .ite Iff.rfl (fun _ _ => rfl) fun _ => .wait (by rw [length_append]; omega) fun _ _ => rfl
  consumed p host port n h := by
    rw [socks4Request_eq] at h
    split_ifs at h
    · simp only [Parsed.destination.injEq] at h
      omega
    · simp only [Parsed.destination.injEq] at h
      omega

/-- The bytes of a SOCKS5 request, which its address type says. -/
def socks5Length (input : Bytes) : Option Nat :=
  if input.getD 3 0 = socks5Ipv4 then some 10
  else if input.getD 3 0 = socks5Domain then some (7 + (input.getD 4 0).toNat)
  else if input.getD 3 0 = socks5Ipv6 then some 22
  else none

def socks5Host (text : HostText) (input : Bytes) : String :=
  if input.getD 3 0 = socks5Ipv4 then dotted (slice 4 8 input)
  else if input.getD 3 0 = socks5Domain then
    text.fromUtf8Lossy (slice 5 (5 + (input.getD 4 0).toNat) input)
  else text.ipv6 (slice 4 20 input)

theorem socks5Request_eq :
    socks5Request text input =
      if input.length < 4 then .needMore
      else if input.getD 0 0 ≠ socks5Version then .error "Invalid SOCKS5 request version"
      else if input.getD 1 0 ≠ socks5Connect then .error "SOCKS5 only supports CONNECT"
      else
        match socks5Length input with
        | none => .error "Unsupported SOCKS5 address type"
        | some n =>
          if input.length < n then .needMore
          else .destination (socks5Host text input) (beValue (slice (n - 2) n input)) n := by
  unfold socks5Request socks5Length socks5Host
  refine ite_congr rfl (fun _ => rfl) fun _ =>
    ite_congr rfl (fun _ => rfl) fun _ => ite_congr rfl (fun _ => rfl) fun _ => ?_
  by_cases h1 : input.getD 3 0 = socks5Ipv4
  · simp only [if_pos h1]
    exact ite_congr rfl (fun _ => rfl) fun h10 => if_neg h10
  simp only [if_neg h1]
  by_cases h3 : input.getD 3 0 = socks5Domain
  · simp only [if_pos h3]
    by_cases h5 : input.length < 5
    · rw [if_pos h5, if_pos (by omega)]
    rw [if_neg h5, show 7 + (input.getD 4 0).toNat = 5 + (input.getD 4 0).toNat + 2 by omega]
    exact ite_congr rfl (fun _ => rfl) fun hlen => if_neg hlen
  simp only [if_neg h3]
  by_cases h6 : input.getD 3 0 = socks5Ipv6
  · simp only [if_pos h6]
    exact ite_congr rfl (fun _ => rfl) fun h22 => if_neg h22
  · simp only [if_neg h6]

theorem socks5Length_append_none (h4 : 4 ≤ p.length) (h : socks5Length p = none) :
    socks5Length (p ++ q) = none := by
  unfold socks5Length at h ⊢
  rw [getD_append_left q (show 3 < p.length by omega)]
  split_ifs at h ⊢
  rfl

theorem socks5_append {n : Nat} (h4 : 4 ≤ p.length) (h : socks5Length p = some n) (hn : n ≤ p.length) :
    socks5Length (p ++ q) = some n ∧ socks5Host text (p ++ q) = socks5Host text p := by
  unfold socks5Length at h ⊢
  unfold socks5Host
  rw [getD_append_left q (show 3 < p.length by omega)]
  by_cases h1 : p.getD 3 0 = socks5Ipv4
  · simp only [if_pos h1, Option.some.injEq] at h ⊢
    exact ⟨h, by rw [slice_append_right q (by omega)]⟩
  simp only [if_neg h1] at h ⊢
  by_cases h3 : p.getD 3 0 = socks5Domain
  · simp only [if_pos h3, Option.some.injEq] at h ⊢
    rw [getD_append_left q (show 4 < p.length by omega)]
    exact ⟨h, by rw [slice_append_right q (by omega)]⟩
  simp only [if_neg h3] at h ⊢
  by_cases h6 : p.getD 3 0 = socks5Ipv6
  · simp only [if_pos h6, Option.some.injEq] at h ⊢
    exact ⟨h, by rw [slice_append_right q (by omega)]⟩
  · simp only [if_neg h6, reduceCtorEq] at h

theorem stable_socks5Request : Stable (socks5Request text) where
  append p q := by
    rw [socks5Request_eq, socks5Request_eq]
    refine Keeps.wait (length_lt_of_append q) fun h4 => ?_
    rw [getD_append_left q (show 0 < p.length by omega), getD_append_left q (show 1 < p.length by omega)]
    refine .ite Iff.rfl (fun _ _ => rfl) fun _ => .ite Iff.rfl (fun _ _ => rfl) fun _ => ?_
    cases hn : socks5Length p with
    | none =>
      rw [socks5Length_append_none q (le_of_not_lt h4) hn]
      exact fun _ => rfl
    | some n =>
      by_cases hsh : p.length < n
      · dsimp only
        rw [if_pos hsh]
        exact .needMore
      obtain ⟨hlen, hhost⟩ := socks5_append q text (le_of_not_lt h4) hn (le_of_not_lt hsh)
      rw [hlen, hhost]
      dsimp only
      rw [slice_append_right q (le_of_not_lt hsh)]
      exact .wait (length_lt_of_append q) fun _ _ => rfl
  consumed p host port n h := by
    rw [socks5Request_eq] at h
    cases hn : socks5Length p with
    | none =>
      simp only [hn] at h
      split_ifs at h
    | some m =>
      simp only [hn] at h
      split_ifs at h with _ _ _ hsh
      simp only [Parsed.destination.injEq] at h
      omega

/-! ### Requests that are refused, and requests that are complete -/

/-- A SOCKS4 request that no bytes to come can make acceptable. -/
def Socks4Refused (input : Bytes) : Prop :=
  8 ≤ input.length ∧
    (input.getD 1 0 ≠ socks4Connect ∨ maxIdent < (userid input).length ∨
      (isSocks4a (slice 4 8 input) ∧ maxIdent < (domain input).length))

/-- A SOCKS5 request to connect, with all the bytes of its address and port. -/
def Socks5Requested (input : Bytes) : Prop :=
  4 ≤ input.length ∧ input.getD 0 0 = socks5Version ∧ input.getD 1 0 = socks5Connect ∧
    ∃ n ∈ socks5Length input, n ≤ input.length

theorem domain_eq_nil {input : Bytes} (h : input.length < useridEnd input) : domain input = [] := by
  rw [domain, drop_eq_nil_of_le (Nat.le_of_lt h), ident, takeWhile_nil]

theorem socks4Request_error_iff :
    (∃ message, socks4Request text input = .error message) ↔ Socks4Refused input := by
  rw [socks4Request_eq, Socks4Refused]
  split_ifs with h8 hcmd huser hend h4a hdom hsh
  · simp [h8]
  · simp [-List.getD_eq_getElem?_getD, hcmd, le_of_not_lt h8]
  · simp [huser, le_of_not_lt h8]
  · simp [-List.getD_eq_getElem?_getD, hcmd, huser, domain_eq_nil hend]
  · simp [h4a, hdom, le_of_not_lt h8]
  · simp [-List.getD_eq_getElem?_getD, hcmd, huser, hdom]
  · simp [-List.getD_eq_getElem?_getD, hcmd, huser, hdom]
  · simp [-List.getD_eq_getElem?_getD, hcmd, huser, h4a]

theorem socks5Request_destination_iff :
    (∃ host port n, socks5Request text input = .destination host port n) ↔ Socks5Requested input := by
  rw [socks5Request_eq, Socks5Requested]
  split_ifs with h4 hv hcmd
  · simp [h4]
  · simp [-List.getD_eq_getElem?_getD, hv]
  · simp [-List.getD_eq_getElem?_getD, hcmd]
  · simp only [not_not] at hv hcmd
    cases hn : socks5Length input with
    | none => simp
    | some n =>
      by_cases hsh : input.length < n
      · simp [hsh]
      · simp [-List.getD_eq_getElem?_getD, hsh, hv, hcmd, le_of_not_lt h4, le_of_not_lt hsh]

/-- Enough bytes decide a SOCKS4 request: the fixed part and two identifiers of the longest length. -/
theorem socks4Request_decides {input : Bytes} (h : 8 + 2 * (maxIdent + 1) ≤ input.length) :
    socks4Request text input ≠ .needMore := by
  have hend : useridEnd input = 8 + (userid input).length + 1 := rfl
  rw [socks4Request_eq]
  split_ifs
  all_goals simp only [ne_eq, reduceCtorEq, not_false_eq_true, not_true_eq_false]
  all_goals omega

/-! ### The parser a state runs -/

/-- What `feed` makes of its bytes unless a method selection of SOCKS5 is still due: it goes by the first byte
at every call. -/
def dispatch (text : HostText) (input : Bytes) : Parsed :=
  match input with
  | [] => .needMore
  | version :: _ =>
    if version = socks4Version then socks4Request text input
    else if version = socks5Version then socks5Request text input
    else .error "Unsupported SOCKS version"

theorem stable_dispatch : Stable (dispatch text) where
  append p q := by
    cases p with
    | nil => exact Keeps.needMore
    | cons version rest =>
      refine Keeps.ite Iff.rfl (fun _ => ?_) fun _ => .ite Iff.rfl (fun _ => ?_) fun _ _ => rfl
      · exact (stable_socks4Request text).append _ q
      · exact (stable_socks5Request text).append _ q
  consumed p host port n h := by
    cases p with
    | nil => exact absurd h (by simp [dispatch])
    | cons version rest =>
      unfold dispatch at h
      dsimp only at h
      split_ifs at h
      · exact (stable_socks4Request text).consumed _ _ _ _ h
      · exact (stable_socks5Request text).consumed _ _ _ _ h

namespace SocksHandshake

variable (text : HostText) {state : SocksHandshake}

theorem feed_large (hc : state.complete = false) (h : maxHandshake < state.input.length) :
    state.feed text = (.error, { state with error := some "SOCKS handshake too large" }) := by
  simp [feed, hc, h]

section
variable (hc : state.complete = false) (hlen : state.input.length ≤ maxHandshake)
include hc hlen

theorem feed_dispatch (h : state.socks5AuthDone = true ∨ state.input.head? ≠ some socks5Version) :
    state.feed text = state.settle (state.input.headD 0) (dispatch text state.input) := by
  unfold feed
  rw [if_neg (by simp [hc]), if_neg (Nat.not_lt.mpr hlen)]
  cases hi : state.input with
  | nil => simp [dispatch, settle]
  | cons version rest =>
    dsimp only [dispatch, headD_cons]
    by_cases h4 : version = socks4Version
    · rw [if_pos h4, if_pos h4, parseSocks4, hi, h4]
    rw [if_neg h4, if_neg h4]
    by_cases h5 : version = socks5Version
    · have hauth : state.socks5AuthDone = true := by
        rcases h with h | h
        · exact h
        · exact absurd (by rw [hi, h5]; rfl) h
      rw [if_pos h5, if_pos h5, if_pos hauth, parseSocks5Request, hi, h5]
    · rw [if_neg h5, if_neg h5, settle, ← hi]

/-- The bytes of the method selection that opens a SOCKS5 handshake. -/
def authLength (input : Bytes) : Nat := 2 + (input.getD 1 0).toNat

/-- The client offers to go without authentication. -/
def OffersNoAuth (input : Bytes) : Prop :=
  socks5NoAuth ∈ slice 2 (authLength input) input

instance (input : Bytes) : Decidable (OffersNoAuth input) :=
  inferInstanceAs (Decidable (_ ∈ _))

/-- The state after a method selection that offers no authentication. -/
def authed (state : SocksHandshake) : SocksHandshake :=
  { state with
    reply := [socks5Version, socks5NoAuth]
    input := state.input.drop (authLength state.input)
    socks5AuthDone := true }

theorem feed_selection (hauth : state.socks5AuthDone = false) (h5 : state.input.head? = some socks5Version) :
    state.feed text =
      if (parseSocks5Auth state).1 = .error then parseSocks5Auth state
      else if (parseSocks5Auth state).2.input.isEmpty then (.needMore, (parseSocks5Auth state).2)
      else
        let parsed := parseSocks5Request text { (parseSocks5Auth state).2 with reply := [] }
        (parsed.1, { parsed.2 with reply := (parseSocks5Auth state).2.reply ++ parsed.2.reply }) := by
  obtain ⟨rest, hi⟩ : ∃ rest, state.input = socks5Version :: rest := by
    cases hi : state.input with
    | nil => simp [hi] at h5
    | cons version rest => exact ⟨rest, by simpa [hi] using h5⟩
  have h4 : ¬ socks5Version = socks4Version := by decide
  unfold feed
  rw [if_neg (by simp [hc]), if_neg (Nat.not_lt.mpr hlen)]
  simp only [hi, if_neg h4, if_true, hauth, Bool.false_eq_true, if_false]

end

theorem parseSocks5Auth_unfinished (h : state.input.length < authLength state.input) :
    parseSocks5Auth state = (.needMore, state) := by
  unfold parseSocks5Auth
  split_ifs with h2
  · rfl
  · exact if_pos h

theorem parseSocks5Auth_selected (h : authLength state.input ≤ state.input.length) :
    parseSocks5Auth state =
      if OffersNoAuth state.input then (.needMore, state.authed)
      else (.error, { state with
          reply := [socks5Version, socks5NoAcceptable]
          error := some "SOCKS5 client did not offer no-auth" }) := by
  unfold parseSocks5Auth
  rw [authLength] at h
  rw [if_neg (by omega)]
  simp only [contains_iff_mem, if_neg (Nat.not_lt.mpr h)]
  rfl

section
variable (hc : state.complete = false) (hlen : state.input.length ≤ maxHandshake)
  (hauth : state.socks5AuthDone = false)
include hc hlen hauth

/-- With four bytes of an unfinished method selection, its number of methods is taken for the command of a
request. -/
theorem feed_unfinished (hr : state.reply = []) (h5 : state.input.head? = some socks5Version)
    (h : state.input.length < authLength state.input) :
    state.feed text =
      if state.input.length < 4 then (.needMore, state)
      else (.error, { state with error := some "SOCKS5 only supports CONNECT" }) := by
  have hne : state.input.isEmpty = false := by
    cases hi : state.input with
    | nil => simp [hi] at h5
    | cons version rest => rfl
  have hsame : { state with reply := [] } = state := by rw [← hr]
  rw [feed_selection text hc hlen hauth h5, parseSocks5Auth_unfinished h]
  simp only [reduceCtorEq, if_false, hne, Bool.false_eq_true, hsame, parseSocks5Request]
  by_cases h4 : state.input.length < 4
  · rw [socks5Request_eq, if_pos h4, if_pos h4]
    simp only [settle, hr, append_nil, hsame]
  have hv : state.input.getD 0 0 = socks5Version := by
    rw [List.getD_eq_getElem?_getD, ← List.head?_eq_getElem?, h5, Option.getD_some]
  have hcmd : state.input.getD 1 0 ≠ socks5Connect := by
    intro hcmd
    rw [authLength, hcmd] at h
    have : socks5Connect.toNat = 1 := rfl
    omega
  rw [socks5Request_eq, if_neg h4, if_neg h4, if_neg (not_not.mpr hv), if_pos hcmd]
  simp only [settle, hr, append_nil]

section
variable (h5 : state.input.head? = some socks5Version) (h : authLength state.input ≤ state.input.length)
include h5 h

theorem feed_refused (hno : ¬ OffersNoAuth state.input) :
    state.feed text =
      (.error, { state with
          reply := [socks5Version, socks5NoAcceptable]
          error := some "SOCKS5 client did not offer no-auth" }) := by
  rw [feed_selection text hc hlen hauth h5, parseSocks5Auth_selected h, if_neg hno]
  exact if_pos rfl

theorem feed_offered (hno : OffersNoAuth state.input) :
    state.feed text = state.authed.settle socks5Version (socks5Request text state.authed.input) := by
  rw [feed_selection text hc hlen hauth h5, parseSocks5Auth_selected h, if_pos hno]
  have hreply : { { state.authed with reply := [] } with reply := state.authed.reply ++ [] } = state.authed := by
    rw [append_nil]
  simp only [reduceCtorEq, if_false, parseSocks5Request]
  by_cases hrest : state.authed.input.isEmpty
  · rw [if_pos hrest, List.isEmpty_iff.mp hrest]
    rfl
  rw [if_neg hrest]
  cases socks5Request text state.authed.input with
  | needMore => simp only [settle, hreply]
  | error message => simp only [settle, append_nil]
  | destination host port n => simp only [settle, finishDestination, append_nil]

end

end

end SocksHandshake

end EternalTerminal
