import EternalTerminal.Lib.Bytes

/-!
# Lib — reads from a nonblocking stream

A stream as what its reads will meet: bytes that are ready, of which a read takes as many as its buffer has room
for, and reads that would block or are interrupted.  A stream that has nothing more blocks.

* `readReady`: one read into a buffer, retried when it is interrupted.
* `Intake`: a loop that reads until it wants no more bytes, and keeps what it has when a read would block
  (`Intake.run`).  `Intake.run_spec`: it takes the bytes it is after and no others, however they arrive.
* `decoderCalls`: a decoder called again and again.  `decoderCalls_spec`: when one call reads on in the current
  message, the calls yield the messages of the stream.
-/

namespace Reads
open List

/-- What one read finds. -/
inductive ReadEvent where
  /-- Bytes have arrived; none are the end of the stream. -/
  | ready (bytes : Bytes)
  | wouldBlock
  | interrupted
  | failed
  deriving DecidableEq

/-- What the reads to come find. -/
abbrev Source := List ReadEvent

/-- What a read answers. -/
inductive ReadResult where
  | got (bytes : Bytes)
  | blocked
  | ended
  | failed

/-- One read into a buffer with room for `room` bytes, retried when it is interrupted. -/
def readReady (room : Nat) : Source → ReadResult × Source
  | [] => (.blocked, [])
  | .wouldBlock :: rest => (.blocked, rest)
  | .interrupted :: rest => readReady room rest
  | .failed :: rest => (.failed, rest)
  | .ready bytes :: rest =>
    if bytes.take room = [] then (.ended, .ready bytes :: rest)
    else (.got (bytes.take room), if bytes.length ≤ room then rest else .ready (bytes.drop room) :: rest)

def ReadEvent.bytes : ReadEvent → Bytes
  | .ready bytes => bytes
  | _ => []

/-- The bytes of the stream. -/
def bytesOf (src : Source) : Bytes := src.flatMap ReadEvent.bytes

/-- How often the stream makes a reader wait. -/
def blocks (src : Source) : Nat := src.count .wouldBlock

def ReadEvent.weight (e : ReadEvent) : Nat := e.bytes.length + 1

/-- A read that gets anything makes the stream lighter. -/
def weight (src : Source) : Nat := (src.map ReadEvent.weight).sum

/-- The stream neither ends nor fails. -/
def Flows (src : Source) : Prop := ∀ e ∈ src, e ≠ .failed ∧ e ≠ .ready []

instance (src : Source) : Decidable (Flows src) :=
  inferInstanceAs (Decidable (∀ e ∈ src, e ≠ .failed ∧ e ≠ .ready []))

@[simp] theorem bytesOf_nil : bytesOf [] = [] := rfl

@[simp] theorem bytesOf_cons (e : ReadEvent) (src : Source) : bytesOf (e :: src) = e.bytes ++ bytesOf src := rfl

theorem flows_cons {e : ReadEvent} {src : Source} :
    Flows (e :: src) ↔ (e ≠ .failed ∧ e ≠ .ready []) ∧ Flows src :=
  forall_mem_cons

theorem readReady_weight {room : Nat} {src rest : Source} {bytes : Bytes}
    (h : readReady room src = (.got bytes, rest)) : weight rest < weight src := by
  fun_induction readReady room src with
  | case1 => cases h
  | case2 => cases h
  | case3 rest' ih =>
    have hlt := ih h
    simp only [weight, map_cons, sum_cons] at hlt ⊢
    omega
  | case4 => cases h
  | case5 => cases h
  | case6 bytes' rest' htake =>
    cases h
    split
    · simp only [weight, map_cons, sum_cons, ReadEvent.weight]
      omega
    rename_i hlong
    have hroom : room ≠ 0 := by
      rintro rfl
      exact htake (take_zero ..)
    simp only [weight, map_cons, sum_cons, ReadEvent.weight, ReadEvent.bytes, length_drop]
    omega

/-- One read from a stream that flows: bytes from its front, or a wait. -/
theorem readReady_spec {room : Nat} {src : Source} (hroom : 0 < room) (hfl : Flows src) :
    (∃ bytes rest, readReady room src = (.got bytes, rest) ∧ bytes ≠ [] ∧ bytes.length ≤ room ∧
        bytesOf src = bytes ++ bytesOf rest ∧ blocks rest = blocks src ∧ Flows rest) ∨
      (∃ rest, readReady room src = (.blocked, rest) ∧ bytesOf rest = bytesOf src ∧ Flows rest ∧
        (blocks rest < blocks src ∨ rest = [])) := by
  fun_induction readReady room src with
  | case1 => exact .inr ⟨[], rfl, rfl, hfl, .inr rfl⟩
  | case2 rest =>
    refine .inr ⟨rest, rfl, rfl, (flows_cons.mp hfl).2, .inl ?_⟩
    simp [blocks]
  | case3 rest ih =>
    have hblk : blocks (.interrupted :: rest) = blocks rest := by simp [blocks]
    simpa only [bytesOf_cons, ReadEvent.bytes, nil_append, hblk] using ih (flows_cons.mp hfl).2
  | case4 rest => exact absurd rfl (flows_cons.mp hfl).1.1
  | case5 bytes rest htake =>
    have hnil : bytes = [] := by
      cases bytes with
      | nil => rfl
      | cons b bs => simp [Nat.ne_of_gt hroom] at htake
    exact absurd (congrArg ReadEvent.ready hnil) (flows_cons.mp hfl).1.2
  | case6 bytes rest htake =>
    refine .inl ⟨_, _, rfl, htake, length_take_le _ _, ?_⟩
    have hrest := (flows_cons.mp hfl).2
    split
    next hfits =>
      refine ⟨?_, by simp [blocks], hrest⟩
      rw [bytesOf_cons, ReadEvent.bytes, take_of_length_le hfits]
    rename_i hlong
    refine ⟨?_, by simp [blocks], flows_cons.mpr ⟨⟨by simp, ?_⟩, hrest⟩⟩
    · rw [bytesOf_cons, bytesOf_cons, ReadEvent.bytes, ReadEvent.bytes, ← append_assoc, take_append_drop]
    · simpa using hlong

/-! ### Loops that read -/

/-- A loop that reads into `s` while it `wants` bytes: it makes room, reads, and stores what it got. -/
structure Intake (σ ε : Type) where
  wants : σ → Bool
  grow : σ → σ
  room : σ → Nat
  store : σ → Bytes → Option ε × σ

namespace Intake
variable {σ ε : Type}

/-- Why a loop of reads ended. -/
inductive Status (ε : Type) where
  | full
  | blocked
  | ended
  | failed
  | refused (error : ε)

def run (k : Intake σ ε) (s : σ) (src : Source) : Status ε × σ × Source :=
  if k.wants s then
    match _hread : readReady (k.room (k.grow s)) src with
    | (.got bytes, rest) =>
      match k.store (k.grow s) bytes with
      | (none, s) => k.run s rest
      | (some error, s) => (.refused error, s, rest)
    | (.blocked, rest) => (.blocked, k.grow s, rest)
    | (.ended, rest) => (.ended, k.grow s, rest)
    | (.failed, rest) => (.failed, k.grow s, rest)
  else (.full, s, src)
  termination_by weight src
  decreasing_by exact readReady_weight _hread

/-- What a loop keeps of bytes that it parses. -/
def parsed {α : Type} (keep : α → σ) (s : σ) : Except ε α → Option ε × σ
  | .ok a => (none, keep a)
  | .error error => (some error, s)

variable {k : Intake σ ε} {s s' : σ} {src rest : Source} {bytes : Bytes}

theorem run_of_not_wants (h : k.wants s = false) : k.run s src = (.full, s, src) := by
  rw [run, if_neg (by simp [h])]

theorem run_got (h : k.wants s = true) (hread : readReady (k.room (k.grow s)) src = (.got bytes, rest))
    (hstore : k.store (k.grow s) bytes = (none, s')) : k.run s src = k.run s' rest := by
  rw [run, if_pos h]
  split
  next heq =>
    rw [hread] at heq
    obtain ⟨hgot, rfl⟩ := Prod.mk.inj heq
    obtain rfl := ReadResult.got.inj hgot
    rw [hstore]
  all_goals
    rename_i heq
    rw [hread] at heq
    cases heq

theorem run_blocked (h : k.wants s = true) (hread : readReady (k.room (k.grow s)) src = (.blocked, rest)) :
    k.run s src = (.blocked, k.grow s, rest) := by
  rw [run, if_pos h]
  split
  case h_2 heq =>
    rw [hread] at heq
    cases heq
    rfl
  all_goals
    rename_i heq
    rw [hread] at heq
    cases heq

/-- The loop is after the bytes `goal`: `At s got` says that it has got the bytes `got` of them. -/
structure After (k : Intake σ ε) (goal : Bytes) (At : σ → Bytes → Prop) : Prop where
  wants_iff : ∀ {s got}, At s got → (k.wants s = true ↔ got.length < goal.length)
  grow : ∀ {s got}, At s got → got.length < goal.length →
    At (k.grow s) got ∧ 0 < k.room (k.grow s) ∧ got.length + k.room (k.grow s) ≤ goal.length
  store : ∀ {s got bytes}, At s got → got ++ bytes <+: goal → bytes ≠ [] → bytes.length ≤ k.room s →
    ∃ s', k.store s bytes = (none, s') ∧ At s' (got ++ bytes)

variable {goal more : Bytes} {At : σ → Bytes → Prop}

/-- A loop that collects the bytes it is after, and is done with the last of them. -/
theorem after_of_collects {part : Bytes → σ} {done : σ} (hwants : ∀ got, k.wants (part got) = true)
    (hdone : k.wants done = false) (hgrow : ∀ got, k.grow (part got) = part got)
    (hroom : ∀ got, k.room (part got) = goal.length - got.length)
    (hmore : ∀ {got bytes : Bytes}, (got ++ bytes).length ≠ goal.length →
      k.store (part got) bytes = (none, part (got ++ bytes)))
    (hlast : ∀ {got bytes : Bytes}, got ++ bytes = goal → k.store (part got) bytes = (none, done)) :
    k.After goal fun s got => (got.length < goal.length ∧ s = part got) ∨ (got = goal ∧ s = done) where
  wants_iff := by
    rintro s got (⟨hlt, rfl⟩ | ⟨rfl, rfl⟩)
    · simp [hwants, hlt]
    · simp [hdone]
  grow := by
    rintro s got (⟨hlt, rfl⟩ | ⟨rfl, rfl⟩) hgoal
    · rw [hgrow, hroom]
      exact ⟨.inl ⟨hlt, rfl⟩, by omega, by omega⟩
    · exact absurd hgoal (lt_irrefl _)
  store := by
    rintro s got bytes (⟨hlt, rfl⟩ | ⟨rfl, rfl⟩) hgoal hne -
    · by_cases hfull : (got ++ bytes).length = goal.length
      · have hall := hgoal.eq_of_length hfull
        exact ⟨done, hlast hall, .inr ⟨hall, rfl⟩⟩
      · exact ⟨part (got ++ bytes), hmore hfull, .inl ⟨lt_of_le_of_ne hgoal.length_le hfull, rfl⟩⟩
    · have hle := hgoal.length_le
      rw [length_append] at hle
      exact absurd (length_eq_zero_iff.mp (by omega)) hne

/-- **A loop over a stream that has its bytes** gets them all, or waits with some of them missing.  The induction
is on the weight of the stream, which every read that gets something makes smaller. -/
theorem run_spec (hk : k.After goal At) {got : Bytes} (hat : At s got) (hle : got.length ≤ goal.length)
    (hfl : Flows src) (hbs : got ++ bytesOf src = goal ++ more) :
    (∃ s' rest, k.run s src = (.full, s', rest) ∧ At s' goal ∧ bytesOf rest = more ∧ blocks rest = blocks src ∧
        Flows rest) ∨
      (∃ s' rest got', k.run s src = (.blocked, s', rest) ∧ At s' got' ∧ got'.length < goal.length ∧
        got' ++ bytesOf rest = goal ++ more ∧ blocks rest < blocks src ∧ Flows rest) := by
  induction hw : weight src using Nat.strong_induction_on generalizing s got src with
  | _ w ih =>
    by_cases hlt : got.length < goal.length
    · have hwants := (hk.wants_iff hat).mpr hlt
      obtain ⟨hgr, hroom, hfits⟩ := hk.grow hat hlt
      rcases readReady_spec hroom hfl with
        ⟨bytes, rest, hread, hne, hlen, hspl, hblk, hrest⟩ | ⟨rest, hread, hsame, hrest, hblk⟩
      · have hgoal : (got ++ bytes) ++ bytesOf rest = goal ++ more := by
          rw [append_assoc, ← hspl, hbs]
        have hlen' : (got ++ bytes).length ≤ goal.length := by
          rw [length_append]
          omega
        have hgot : got ++ bytes <+: goal :=
          prefix_of_prefix_length_le ⟨_, hgoal⟩ (prefix_append _ _) hlen'
        obtain ⟨s', hstore, hat'⟩ := hk.store hgr hgot hne hlen
        have hlight := readReady_weight hread
        rw [run_got hwants hread hstore, ← hblk]
        exact ih _ (hw ▸ hlight) hat' hlen' hrest hgoal rfl
      · refine .inr ⟨_, rest, got, run_blocked hwants hread, hgr, hlt, by rw [hsame, hbs], ?_, hrest⟩
        -- bytes are missing, so the stream is not at its end
        refine hblk.resolve_right fun hnil => ?_
        rw [← hsame, hnil, bytesOf_nil, append_nil] at hbs
        rw [hbs, length_append] at hlt
        omega
    · have hsame : got.length = goal.length := by omega
      have hwants : k.wants s = false := by
        rw [← Bool.not_eq_true, hk.wants_iff hat]
        exact hlt
      obtain ⟨rfl, hmore⟩ := append_inj hbs hsame
      exact .inl ⟨s, src, run_of_not_wants hwants, hat, hmore, rfl, hfl⟩

/-- A loop over a stream without bytes waits. -/
theorem run_idle (hk : k.After goal At) (hat : At s []) (hgoal : goal ≠ []) (hfl : Flows src)
    (hbs : bytesOf src = []) :
    ∃ s' rest, k.run s src = (.blocked, s', rest) ∧ At s' [] ∧ bytesOf rest = [] ∧ Flows rest := by
  have hpos : ([] : Bytes).length < goal.length := length_pos_of_ne_nil hgoal
  obtain ⟨hgr, hroom, -⟩ := hk.grow hat hpos
  rcases readReady_spec hroom hfl with ⟨bytes, rest, -, hne, -, hspl, -⟩ | ⟨rest, hread, hsame, hrest, -⟩
  · rw [hbs] at hspl
    exact absurd (append_eq_nil_iff.mp hspl.symm).1 hne
  · exact ⟨_, rest, run_blocked ((hk.wants_iff hat).mpr hpos) hread, hgr, hsame.trans hbs, hrest⟩

end Intake

/-! ### Calls of a decoder -/

/-- The call that answered `r` ended the message `m` and left the bytes `more`, or it waits in the middle of the
message with the whole of `stream` still accounted for. -/
def Progress {δ ε M : Type} (Between : δ → Prop) (Within : δ → Bytes → Prop) (m : M) (stream more : Bytes) (waits : Nat)
    (r : Except ε (Option M) × δ × Source) : Prop :=
  (∃ d rest, r = (.ok (some m), d, rest) ∧ Between d ∧ bytesOf rest = more ∧ blocks rest ≤ waits ∧ Flows rest) ∨
    (∃ d rest got, r = (.ok none, d, rest) ∧ Within d got ∧ got ++ bytesOf rest = stream ∧ blocks rest < waits ∧
      Flows rest)

/-- A decoder inside another one makes the same progress. -/
theorem Progress.lift {δ δ' ε M : Type} {Between : δ → Prop} {Within : δ → Bytes → Prop} {Between' : δ' → Prop}
    {Within' : δ' → Bytes → Prop} {m : M} {stream more : Bytes} {waits : Nat} {r : Except ε (Option M) × δ × Source}
    {r' : Except ε (Option M) × δ' × Source} (h : Progress Between Within m stream more waits r)
    (hdone : ∀ {d rest}, r = (.ok (some m), d, rest) → Between d → ∃ d', r' = (.ok (some m), d', rest) ∧ Between' d')
    (hwait : ∀ {d rest got}, r = (.ok none, d, rest) → Within d got →
      ∃ d', r' = (.ok none, d', rest) ∧ Within' d' got) :
    Progress Between' Within' m stream more waits r' := by
  rcases h with ⟨d, rest, hr, hbtw, hrest⟩ | ⟨d, rest, got, hr, hin, hrest⟩
  · obtain ⟨d', hr', hbtw'⟩ := hdone hr hbtw
    exact .inl ⟨d', rest, hr', hbtw', hrest⟩
  · obtain ⟨d', hr', hin'⟩ := hwait hr hin
    exact .inr ⟨d', rest, got, hr', hin', hrest⟩

namespace Intake
variable {σ δ ε M : Type} {k : Intake σ ε} {s : σ} {src : Source} {goal tail stream more : Bytes} {waits : Nat}
  {At : σ → Bytes → Prop} {Between : δ → Prop} {Within : δ → Bytes → Prop} {m : M}

/-- What a call comes to that reads first: it stops where the reading does, or goes on.  `put` puts the state of
the loop back into the decoder. -/
def andThen (put : σ → δ) (r : Status ε × σ × Source) (ended failed : ε)
    (next : δ → Source → Except ε (Option M) × δ × Source) : Except ε (Option M) × δ × Source :=
  match r with
  | (.full, s, src) => next (put s) src
  | (.blocked, s, src) => (.ok none, put s, src)
  | (.ended, s, src) => (.error ended, put s, src)
  | (.failed, s, src) => (.error failed, put s, src)
  | (.refused error, s, src) => (.error error, put s, src)

/-- A call that reads `goal` first makes progress when it does so with these bytes read. -/
theorem andThen_progress {put : σ → δ} {ended failed : ε} {next : δ → Source → Except ε (Option M) × δ × Source}
    (hk : k.After goal At) {got : Bytes} (hat : At s got) (hle : got.length ≤ goal.length) (hfl : Flows src)
    (hwt : blocks src ≤ waits) (hbs : got ++ bytesOf src = goal ++ tail)
    (hwait : ∀ {s' got' rest}, At s' got' → got'.length < goal.length → got' ++ bytesOf rest = goal ++ tail →
      ∃ all, Within (put s') all ∧ all ++ bytesOf rest = stream)
    (hnext : ∀ {s' rest}, At s' goal → bytesOf rest = tail → Flows rest → blocks rest ≤ waits →
      Progress Between Within m stream more waits (next (put s') rest)) :
    Progress Between Within m stream more waits (andThen put (k.run s src) ended failed next) := by
  rcases run_spec hk hat hle hfl hbs with
    ⟨s', rest, hrun, hat', hrest, hblk, hfl'⟩ | ⟨s', rest, got', hrun, hat', hlt, hrest, hblk, hfl'⟩
  · rw [hrun]
    exact hnext hat' hrest hfl' (hblk ▸ hwt)
  · obtain ⟨all, hin, hstr⟩ := hwait hat' hlt hrest
    rw [hrun]
    exact .inr ⟨put s', rest, all, rfl, hin, hstr, hblk.trans_le hwt, hfl'⟩

end Intake

/-! ### Decoders -/

section Decoders
variable {δ ε M : Type} (call : δ → Source → Except ε (Option M) × δ × Source)

/-- The results of a decoder called `n` times. -/
def decoderCalls : Nat → δ → Source → List (Except ε (Option M))
  | 0, _, _ => []
  | n + 1, d, src =>
    let (result, d, src) := call d src
    result :: decoderCalls n d src

/-- The messages among the results. -/
def yielded (results : List (Except ε (Option M))) : List M :=
  results.filterMap fun
    | .ok message => message
    | .error _ => none

/-- One call reads on in the current message.  `Within m d got` says that the decoder has got the bytes `got` of the
message `m`, which are not all of it; `Between d` that the next byte begins a message. -/
structure Decodes (carried : M → Prop) (frame : M → Bytes) (Between : δ → Prop) (Within : M → δ → Bytes → Prop) :
    Prop where
  start : ∀ {m d}, carried m → Between d → Within m d []
  reads : ∀ {m d got more src}, carried m → Within m d got → Flows src → got ++ bytesOf src = frame m ++ more →
    Progress Between (Within m) m (frame m ++ more) more (blocks src) (call d src)
  idle : ∀ {d src}, Between d → Flows src → bytesOf src = [] →
    ∃ d' rest, call d src = (.ok none, d', rest) ∧ Between d' ∧ bytesOf rest = [] ∧ Flows rest

variable {call} {carried : M → Prop} {frame : M → Bytes} {Between : δ → Prop} {Within : M → δ → Bytes → Prop}
variable {d : δ} {src : Source} {n : Nat} {ms : List M}

theorem decoderCalls_idle (hd : Decodes call carried frame Between Within)
    (hat : Between d) (hfl : Flows src) (hbs : bytesOf src = []) :
    ∀ r ∈ decoderCalls call n d src, r = .ok none := by
  induction n generalizing d src with
  | zero => exact fun r hr => (nomatch hr)
  | succ n ih =>
    obtain ⟨d', rest, hcall, hat', hbs', hfl'⟩ := hd.idle hat hfl hbs
    rw [decoderCalls, hcall]
    exact forall_mem_cons.mpr ⟨rfl, ih hat' hfl' hbs'⟩

theorem yielded_idle {results : List (Except ε (Option M))} (h : ∀ r ∈ results, r = .ok none) :
    yielded results = [] := by
  refine filterMap_eq_nil_iff.mpr fun r hr => ?_
  rw [h r hr]

/-- What the calls of a decoder come to: none fails, the messages come in order, all of them after `bound` calls,
and from then on every call says that more bytes are needed. -/
structure Yields (ms : List M) (bound n : Nat) (results : List (Except ε (Option M))) : Prop where
  ok : ∀ r ∈ results, ∃ message, r = .ok message
  inOrder : yielded results <+: ms
  all : bound ≤ n → yielded results = ms
  idle : ∀ r ∈ results.drop bound, r = .ok none

namespace Yields
variable {ms : List M} {bound bound' n : Nat} {results : List (Except ε (Option M))}

theorem drop_cons {r : Except ε (Option M)} (h : ∀ r ∈ results.drop bound', r = .ok none) (hbd : bound' < bound) :
    ∀ x ∈ (r :: results).drop bound, x = .ok none := by
  obtain ⟨k, rfl⟩ := Nat.exists_eq_add_of_lt hbd
  intro x hx
  exact h x (drop_subset_drop_left results (Nat.le_add_right bound' k) hx)

theorem of_idle (h : ∀ r ∈ results, r = .ok none) : Yields [] 0 n results where
  ok := fun r hr => ⟨none, h r hr⟩
  inOrder := by rw [yielded_idle h]
  all := fun _ => yielded_idle h
  idle := h

section
variable (h : Yields ms bound' n results)
include h

theorem mono (hbd : bound' ≤ bound) : Yields ms bound n results where
  ok := h.ok
  inOrder := h.inOrder
  all := fun hn => h.all (hbd.trans hn)
  idle := fun r hr => h.idle r (drop_subset_drop_left results hbd hr)

/-- One more call that has to wait. -/
theorem wait (hbd : bound' < bound) :
    Yields ms bound (n + 1) (.ok none :: results) where
  ok := forall_mem_cons.mpr ⟨⟨none, rfl⟩, h.ok⟩
  inOrder := h.inOrder
  all := fun hn => h.all (by omega)
  idle := drop_cons h.idle hbd

/-- One more call that ends a message. -/
theorem message (m : M) (hbd : bound' < bound) :
    Yields (m :: ms) bound (n + 1) (.ok (some m) :: results) where
  ok := forall_mem_cons.mpr ⟨⟨some m, rfl⟩, h.ok⟩
  inOrder := prefix_cons_inj m |>.mpr h.inOrder
  all := fun hn => congrArg (m :: ·) (h.all (by omega))
  idle := drop_cons h.idle hbd

end

end Yields

/-- **A decoder called again and again** in the middle of a message.  The induction is on the calls: each ends the
current message or meets a wait. -/
theorem decoderCalls_within (hd : Decodes call carried frame Between Within) {m : M} (hm : carried m)
    (hms : ∀ m ∈ ms, carried m) {got : Bytes} (hat : Within m d got)
    (hfl : Flows src) (hbs : got ++ bytesOf src = (m :: ms).flatMap frame) :
    Yields (m :: ms) (ms.length + 1 + blocks src) n (decoderCalls call n d src) := by
  induction n generalizing m ms d got src with
  | zero => exact ⟨nofun, List.nil_prefix, fun h => by omega, by simp [decoderCalls]⟩
  | succ n ih =>
    rcases hd.reads hm hat hfl hbs with
      ⟨d', rest, hcall, hat', hmore, hblk, hfl'⟩ | ⟨d', rest, got', hcall, hat', hmore, hblk, hfl'⟩
    · rw [decoderCalls, hcall]
      cases ms with
      | nil =>
        have hidle : Yields [] 0 n (decoderCalls call n d' rest) :=
          .of_idle (decoderCalls_idle hd hat' hfl' hmore)
        exact hidle.message m (by omega)
      | cons m' ms =>
        obtain ⟨hm', hms'⟩ := forall_mem_cons.mp hms
        refine (ih hm' hms' (hd.start hm' hat') hfl' hmore).message m ?_
        rw [length_cons]
        omega
    · rw [decoderCalls, hcall]
      exact (ih hm hms hat' hfl' hmore).wait (by omega)

/-- **A decoder called again and again** yields the messages of the stream, however its bytes arrive. -/
theorem decoderCalls_spec (hd : Decodes call carried frame Between Within)
    (hms : ∀ m ∈ ms, carried m) (n : Nat) (hat : Between d) (hfl : Flows src)
    (hbs : bytesOf src = ms.flatMap frame) :
    Yields ms (ms.length + blocks src) n (decoderCalls call n d src) := by
  cases ms with
  | nil => exact (Yields.of_idle (decoderCalls_idle hd hat hfl hbs)).mono (Nat.zero_le _)
  | cons m ms =>
    obtain ⟨hm, hms'⟩ := forall_mem_cons.mp hms
    exact decoderCalls_within hd hm hms' (hd.start hm hat) hfl hbs

end Decoders

end Reads
