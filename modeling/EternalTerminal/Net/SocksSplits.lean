import EternalTerminal.Net.Socks

/-!
# Net — a SOCKS handshake split into reads

The handshake parses what it has after every read, so what it concludes may depend on where the reads end.
Three things make it depend on them: a request that is complete in the call that accepts the method selection
drops the reply to that selection; an unfinished method selection of four bytes or more is parsed as a request;
and once the selection is accepted, the bytes of a later call go by their first byte again.  The limit on the
buffered bytes adds inputs that are longer than it.

Main result: `split_independent_iff`.
-/

namespace EternalTerminal
open Bytes SocksHandshake List

/-- What was written to the client. -/
def SocksOutcome.written : SocksOutcome → Bytes
  | .needMore written | .rejected written | .accepted _ _ _ written => written

/-- What a run comes to once `parsed` is what the parser says of all its bytes. -/
def conclude (written input : Bytes) : Parsed → SocksOutcome
  | .needMore => .needMore written
  | .error _ => .rejected written
  | .destination host port consumed =>
    .accepted (endpoint host port) (input.headD 0) (input.drop consumed) written

section Loop

variable {text : HostText} {state next : SocksHandshake} {version : UInt8} {written : Bytes} {reads : List Bytes}

theorem loop_needMore_nil (h : state.feed text = (.needMore, next)) :
    socksLoop text state written [] = .needMore (written ++ next.reply) := by
  rw [socksLoop, h]

theorem loop_needMore_cons {read : Bytes} (h : state.feed text = (.needMore, next)) :
    socksLoop text state written (read :: reads) =
      socksLoop text ({ next with reply := [] }.push read) (written ++ next.reply) reads := by
  rw [socksLoop, h]

theorem loop_error (h : state.feed text = (.error, next)) :
    socksLoop text state written reads = .rejected (written ++ next.reply) := by
  unfold socksLoop
  rw [h]

theorem loop_destination {host : String} {port n : Nat}
    (h : state.feed text = next.finishDestination host port version n) :
    socksLoop text state written reads =
      .accepted (endpoint host port) version (next.input.drop n ++ reads.flatten) written := by
  unfold socksLoop
  rw [h, finishDestination]

/-- What is written stays written. -/
theorem written_isPrefix (text : HostText) (state : SocksHandshake) (written : Bytes) (reads : List Bytes) :
    written <+: (socksLoop text state written reads).written := by
  induction reads generalizing state written with
  | nil =>
    rcases hfeed : state.feed text with ⟨status, next⟩
    cases status with
    | needMore => rw [loop_needMore_nil hfeed]; exact prefix_append _ _
    | error => rw [loop_error hfeed]; exact prefix_append _ _
    | complete => rw [socksLoop, hfeed]; exact prefix_refl _
  | cons read reads ih =>
    rcases hfeed : state.feed text with ⟨status, next⟩
    cases status with
    | needMore => rw [loop_needMore_cons hfeed]; exact (prefix_append _ _).trans (ih _ _)
    | error => rw [loop_error hfeed]; exact prefix_append _ _
    | complete => rw [socksLoop, hfeed]; exact prefix_refl _

end Loop

variable {input p q rest : Bytes}

theorem head?_ne_of_append {byte : UInt8} (h : (p ++ q).head? ≠ some byte) :
    p.head? ≠ some byte := by
  cases p with
  | nil => simp
  | cons first rest => simpa using h

theorem headD_append (q : Bytes) (h : p ≠ []) : (p ++ q).headD 0 = p.headD 0 := by
  cases p with
  | nil => exact absurd rfl h
  | cons first rest => rfl

theorem feed_nil {text : HostText} {state : SocksHandshake} (hc : state.complete = false) (hi : state.input = []) :
    state.feed text = (.needMore, state) := by
  rw [feed_dispatch text hc (by simp [hi]) (.inr (by simp [hi])), hi]
  rfl

/-! ### Runs that go by the first byte -/

section Runs

variable (text : HostText) (state : SocksHandshake) (written : Bytes) (reads : List Bytes) {sent : Bytes}

/-- A read only moves bytes that were to come into the state. -/
theorem push_flatten {read : Bytes} (hsent : state.input ++ (read :: reads).flatten = sent) :
    ({ state with reply := [] }.push read).input ++ reads.flatten = sent := by
  rw [← hsent, push, flatten_cons, append_assoc]

theorem length_input_le {n : Nat} (hsent : state.input ++ reads.flatten = sent) (hlen : sent.length ≤ n) :
    state.input.length ≤ n := by
  rw [← hsent, length_append] at hlen
  omega

section
variable (hsent : state.input ++ reads.flatten = sent) (hc : state.complete = false) (hr : state.reply = [])
include hsent hc hr

theorem run_decided (hlen : state.input.length ≤ maxHandshake)
    (h : state.socks5AuthDone = true ∨ state.input.head? ≠ some socks5Version)
    (hne : dispatch text state.input ≠ .needMore) :
    socksLoop text state written reads = conclude written sent (dispatch text sent) := by
  have hfeed := feed_dispatch text hc hlen h
  rw [← hsent, (stable_dispatch text).append _ _ hne]
  cases hd : dispatch text state.input with
  | needMore => exact absurd hd hne
  | error message =>
    rw [hd] at hfeed
    rw [loop_error hfeed, hr, append_nil, conclude]
  | destination host port n =>
    rw [hd] at hfeed
    have hi : state.input ≠ [] := by
      intro hi
      rw [hi] at hd
      exact absurd hd (by simp [dispatch])
    have hn := (stable_dispatch text).consumed _ _ _ _ hd
    rw [loop_destination hfeed, conclude, headD_append _ hi, drop_append_of_le_length hn]

/-- A run without a method selection to come goes by what the parser says of all the bytes.  A request that is refused
is refused however long the input grows: too large an input is an error, too. -/
theorem run_dispatch (hlen : sent.length ≤ maxHandshake ∨ ∃ message, dispatch text sent = .error message)
    (h : state.socks5AuthDone = true ∨ sent.head? ≠ some socks5Version) :
    socksLoop text state written reads = conclude written sent (dispatch text sent) := by
  induction reads generalizing state with
  | nil =>
    have hinput : state.input = sent := by rwa [flatten_nil, append_nil] at hsent
    by_cases hlg : maxHandshake < state.input.length
    · obtain ⟨message, hd⟩ := hlen.resolve_left (by rw [← hinput]; omega)
      rw [loop_error (feed_large text hc hlg), hr, append_nil, hd, conclude]
    by_cases hd : dispatch text state.input = .needMore
    · have hfeed := feed_dispatch text hc (Nat.le_of_not_lt hlg) (hinput ▸ h)
      rw [hd] at hfeed
      rw [loop_needMore_nil hfeed, hr, ← hinput, hd, append_nil, conclude]
    · exact run_decided text state written [] hsent hc hr (Nat.le_of_not_lt hlg) (hinput ▸ h) hd
  | cons read reads ih =>
    by_cases hlg : maxHandshake < state.input.length
    · obtain ⟨message, hd⟩ := hlen.resolve_left (by rw [← hsent, length_append]; omega)
      rw [loop_error (feed_large text hc hlg), hr, append_nil, hd, conclude]
    have h' := h.imp_right fun h => head?_ne_of_append (hsent ▸ h)
    by_cases hd : dispatch text state.input = .needMore
    · have hfeed := feed_dispatch text hc (Nat.le_of_not_lt hlg) h'
      rw [hd] at hfeed
      rw [loop_needMore_cons hfeed, hr, append_nil]
      exact ih _ (push_flatten state reads hsent) hc rfl h
    · exact run_decided text state written _ hsent hc hr (Nat.le_of_not_lt hlg) h' hd

end

/-! ### Runs that open with a method selection -/

def noAuthReply : Bytes := [socks5Version, socks5NoAuth]
def noAcceptableReply : Bytes := [socks5Version, socks5NoAcceptable]

/-- What follows a method selection that was accepted in one call with the bytes `q` after it, when `reads`
are still to come.  A request that is complete in that call drops the reply. -/
def afterSelection (text : HostText) (q : Bytes) (reads : List Bytes) : SocksOutcome :=
  match socks5Request text q with
  | .needMore =>
    if reads = [] then .needMore noAuthReply
    else conclude noAuthReply (q ++ reads.flatten) (dispatch text (q ++ reads.flatten))
  | .error _ => .rejected noAuthReply
  | .destination host port n => .accepted (endpoint host port) socks5Version ((q ++ reads.flatten).drop n) []

/-- What a method selection with the bytes `p`, complete in them, comes to. -/
def selected (text : HostText) (p : Bytes) (reads : List Bytes) : SocksOutcome :=
  if OffersNoAuth p then afterSelection text (p.drop (authLength p)) reads
  else .rejected noAcceptableReply

theorem run_selected (hc : state.complete = false)
    (hauth : state.socks5AuthDone = false) (h5 : state.input.head? = some socks5Version)
    (h : authLength state.input ≤ state.input.length)
    (hlen : (state.input ++ reads.flatten).length ≤ maxHandshake) :
    socksLoop text state [] reads = selected text state.input reads := by
  have hlen' := length_input_le state reads rfl hlen
  by_cases hno : OffersNoAuth state.input
  · have hfeed := feed_offered text hc hlen' hauth h5 h hno
    have hinput : state.input.drop (authLength state.input) = state.authed.input := rfl
    rw [selected, if_pos hno, afterSelection, hinput]
    cases hd : socks5Request text state.authed.input with
    | needMore =>
      rw [hd] at hfeed
      cases reads with
      | nil => rw [loop_needMore_nil hfeed]; rfl
      | cons read reads =>
        have hlen'' : (state.authed.input ++ (read :: reads).flatten).length ≤ maxHandshake := by
          rw [← hinput]
          simp only [length_append, length_drop] at hlen ⊢
          omega
        rw [loop_needMore_cons hfeed, if_neg (cons_ne_nil _ _)]
        exact run_dispatch text _ noAuthReply reads (push_flatten state.authed reads rfl) hc rfl (.inl hlen'')
          (.inl rfl)
    | error message =>
      rw [hd] at hfeed
      rw [loop_error hfeed]
      rfl
    | destination host port n =>
      rw [hd] at hfeed
      have hn := (stable_socks5Request text).consumed _ _ _ _ hd
      rw [loop_destination hfeed]
      simp only [drop_append_of_le_length hn]
  · rw [selected, if_neg hno, loop_error (feed_refused text hc hlen' hauth h5 h hno)]
    rfl

theorem authLength_append {p : Bytes} (q : Bytes) (h : 2 ≤ p.length) :
    authLength (p ++ q) = authLength p := by
  rw [authLength, getD_append_left q (by omega), authLength]

/-- Bytes that end before the method selection they open are too few for it. -/
theorem lt_authLength {p q : Bytes} (h : p.length < authLength (p ++ q)) : p.length < authLength p := by
  by_cases h2 : 2 ≤ p.length
  · rwa [authLength_append q h2] at h
  · rw [authLength]
    omega

theorem head?_of_append {p q : Bytes} {byte : UInt8} (h : (p ++ q).head? = some byte) (hp : p ≠ []) :
    p.head? = some byte := by
  cases p with
  | nil => exact absurd rfl hp
  | cons first rest => simpa using h

theorem feed_waits (hc : state.complete = false) (hr : state.reply = []) (hauth : state.socks5AuthDone = false)
    (h5 : state.input ≠ [] → state.input.head? = some socks5Version)
    (h : state.input.length < authLength state.input) (h4 : state.input.length < 4) :
    state.feed text = (.needMore, state) := by
  by_cases hi : state.input = []
  · exact feed_nil hc hi
  · have hlen : state.input.length ≤ maxHandshake := by rw [maxHandshake]; omega
    rw [feed_unfinished text hc hlen hauth hr (h5 hi) h, if_pos h4]

section
variable (hsent : state.input ++ reads.flatten = sent) (hc : state.complete = false) (hr : state.reply = [])
  (hauth : state.socks5AuthDone = false) (h5 : sent.head? = some socks5Version)
include hsent hc hr hauth h5

/-- A method selection that never ends: from its fourth byte on it is an error. -/
theorem run_unfinished (h : sent.length < authLength sent) :
    socksLoop text state [] reads = if sent.length < 4 then .needMore [] else .rejected [] := by
  have hlong : sent.length ≤ maxHandshake := by
    have hmethods := (sent.getD 1 0).toNat_lt
    rw [authLength] at h
    rw [maxHandshake]
    omega
  induction reads generalizing state with
  | nil =>
    obtain rfl : state.input = sent := by rwa [flatten_nil, append_nil] at hsent
    have hfeed := feed_unfinished text hc hlong hauth hr h5 h
    by_cases h4 : state.input.length < 4
    · rw [if_pos h4] at hfeed
      rw [loop_needMore_nil hfeed, hr, if_pos h4, append_nil]
    · rw [if_neg h4] at hfeed
      rw [loop_error hfeed, if_neg h4]
      simp only [hr, append_nil]
  | cons read reads ih =>
    have hle := length_input_le state _ hsent le_rfl
    have hsh := lt_authLength (p := state.input) (hsent.symm ▸ hle.trans_lt h)
    have hhead : state.input ≠ [] → state.input.head? = some socks5Version := head?_of_append (hsent.symm ▸ h5)
    by_cases h4 : state.input.length < 4
    · rw [loop_needMore_cons (feed_waits text state hc hr hauth hhead hsh h4), hr, append_nil]
      exact ih _ (push_flatten state reads hsent) hc rfl hauth
    · have hne : state.input ≠ [] := by
        intro hi
        rw [hi] at h4
        exact h4 (by decide)
      have hfeed := feed_unfinished text hc (hle.trans hlong) hauth hr (hhead hne) hsh
      rw [if_neg h4] at hfeed
      rw [loop_error hfeed, if_neg (by omega)]
      simp only [hr, append_nil]

/-- A method selection of at most two methods is parsed once it is complete, in whichever read it ends. -/
theorem run_selection (h : authLength sent ≤ sent.length) (hfew : authLength sent ≤ 4)
    (hlen : sent.length ≤ maxHandshake) :
    ∃ p rest, p ++ rest.flatten = sent ∧ authLength p ≤ p.length ∧
      socksLoop text state [] reads = selected text p rest := by
  induction reads generalizing state with
  | nil =>
    have hinput : state.input = sent := by rwa [flatten_nil, append_nil] at hsent
    exact ⟨state.input, [], hsent, hinput ▸ h,
      run_selected text state [] hc hauth (hinput ▸ h5) (hinput ▸ h) (hsent ▸ hlen)⟩
  | cons read reads ih =>
    have hhead : state.input ≠ [] → state.input.head? = some socks5Version := head?_of_append (hsent.symm ▸ h5)
    by_cases hdone : authLength state.input ≤ state.input.length
    · have hne : state.input ≠ [] := by
        intro hi
        rw [hi, authLength] at hdone
        simp at hdone
      exact ⟨state.input, read :: reads, hsent, hdone,
        run_selected text state (read :: reads) hc hauth (hhead hne) hdone (hsent ▸ hlen)⟩
    have hsh := Nat.lt_of_not_le hdone
    have h4 : state.input.length < 4 := by
      by_cases h2 : 2 ≤ state.input.length
      · rw [← hsent, authLength_append _ h2] at hfew
        omega
      · omega
    rw [loop_needMore_cons (feed_waits text state hc hr hauth hhead hsh h4), hr, append_nil]
    exact ih _ (push_flatten state reads hsent) hc rfl hauth

end

end Runs
variable (text : HostText)

/-! ### The strings whose outcome does not depend on the reads -/

/-- After a SOCKS5 method selection, the bytes after it in the same call are parsed as a request, later ones go by
their first byte again. -/
def RequestSplitSafe (rest : Bytes) : Prop :=
  match rest with
  | [] => True
  | version :: _ =>
    if version = socks5Version then ¬ Socks5Requested rest
    else if version = socks4Version then rest.length < 4 ∨ Socks4Refused rest
    else 4 ≤ rest.length

/-- The bytes a client sends for which every way of reading them comes to the same. -/
def SplitSafe (sent : Bytes) : Prop :=
  match sent with
  | [] => True
  | version :: _ =>
    if version = socks4Version then sent.length ≤ maxHandshake ∨ Socks4Refused sent
    else if version = socks5Version then
      sent.length < authLength sent ∨
        (sent.length ≤ maxHandshake ∧ authLength sent ≤ 4 ∧
          (¬ OffersNoAuth sent ∨ RequestSplitSafe (sent.drop (authLength sent))))
    else True

theorem socks5Request_short (h : input.length < 4) :
    socks5Request text input = .needMore := by
  rw [socks5Request_eq, if_pos h]

theorem socks5Request_version (h : 4 ≤ input.length) (hv : input.headD 0 ≠ socks5Version) :
    socks5Request text input = .error "Invalid SOCKS5 request version" := by
  have hv' : input.getD 0 0 ≠ socks5Version := by
    cases input with
    | nil => simp at h
    | cons version rest => exact hv
  rw [socks5Request_eq, if_neg (Nat.not_lt.mpr h), if_pos hv']

theorem conclude_eq_rejected_iff {written : Bytes} {parsed : Parsed} :
    conclude written input parsed = .rejected written ↔ ∃ message, parsed = .error message := by
  cases parsed <;> simp [conclude]

theorem afterSelection_short (h : rest.length < 4) :
    afterSelection text rest [] = .needMore noAuthReply := by
  rw [afterSelection, socks5Request_short text h]
  rfl

theorem afterSelection_version (h : 4 ≤ rest.length)
    (hv : rest.headD 0 ≠ socks5Version) : afterSelection text rest [] = .rejected noAuthReply := by
  rw [afterSelection, socks5Request_version text h hv]

theorem requested_iff_afterSelection (rest : Bytes) :
    ¬ Socks5Requested rest ↔
      conclude noAuthReply rest (socks5Request text rest) = afterSelection text rest [] := by
  rw [← socks5Request_destination_iff text rest, afterSelection]
  cases socks5Request text rest with
  | needMore => simp [conclude]
  | error message => simp [conclude]
  | destination host port n => simp [conclude, noAuthReply]

/-- Bytes after a method selection come to the same in its call and in a later one exactly when they are
`RequestSplitSafe`. -/
theorem requestSplitSafe_iff (rest : Bytes) :
    RequestSplitSafe rest ↔
      conclude noAuthReply rest (dispatch text rest) = afterSelection text rest [] := by
  cases hrest : rest with
  | nil => simp [RequestSplitSafe, dispatch, conclude, afterSelection, socks5Request]
  | cons version tail =>
    have hhead : rest.headD 0 = version := by rw [hrest]; rfl
    unfold RequestSplitSafe dispatch
    simp only [← hrest]
    by_cases h5 : version = socks5Version
    · have h4 : ¬ version = socks4Version := by rw [h5]; decide
      rw [if_pos h5, if_neg h4, if_pos h5]
      exact requested_iff_afterSelection text rest
    have hv : rest.headD 0 ≠ socks5Version := by rwa [hhead]
    rw [if_neg h5, if_neg h5]
    by_cases h4 : version = socks4Version
    · rw [if_pos h4, if_pos h4]
      by_cases hsh : rest.length < 4
      · have h8 : rest.length < 8 := by omega
        rw [afterSelection_short text hsh, socks4Request_eq, if_pos h8]
        simp [hsh, conclude]
      · rw [afterSelection_version text (Nat.le_of_not_lt hsh) hv, conclude_eq_rejected_iff, socks4Request_error_iff]
        simp [hsh]
    · rw [if_neg h4, if_neg h4, conclude]
      by_cases hsh : rest.length < 4
      · rw [afterSelection_short text hsh]
        simp [hsh]
      · rw [afterSelection_version text (Nat.le_of_not_lt hsh) hv]
        simp [Nat.le_of_not_lt hsh]

/-- In whichever call the selection ends, `RequestSplitSafe` bytes after it come to the same. -/
theorem afterSelection_split {reads : List Bytes} (h : RequestSplitSafe (q ++ reads.flatten)) :
    afterSelection text q reads = afterSelection text (q ++ reads.flatten) [] := by
  cases hd : socks5Request text q with
  | needMore =>
    by_cases hrds : reads = []
    · rw [hrds, flatten_nil, append_nil]
    · rw [← (requestSplitSafe_iff text _).mp h, afterSelection, hd]
      exact if_neg hrds
  | error message =>
    have hd' := (stable_socks5Request text).append q reads.flatten (by simp [hd])
    simp only [afterSelection, hd, hd']
  | destination host port n =>
    have hd' := (stable_socks5Request text).append q reads.flatten (by simp [hd])
    simp only [afterSelection, hd, hd', flatten_nil, append_nil]

/-! ### Every way of reading -/

section Handshake

variable (text : HostText) {sent : Bytes} {reads : List Bytes}

theorem dispatch_socks4 {tail : Bytes} (hsent : sent = socks4Version :: tail) :
    dispatch text sent = socks4Request text sent := by
  rw [hsent]
  rfl

/-- The first read of a run. -/
theorem handshake_cons (read : Bytes) (reads : List Bytes) :
    finishSocksHandshake text (read :: reads) = socksLoop text { input := read } [] reads := by
  rfl

theorem handshake_large (h : maxHandshake < sent.length) : finishSocksHandshake text [sent] = .rejected [] := by
  rw [handshake_cons, loop_error (feed_large text rfl h)]
  rfl

theorem offersNoAuth_append {p : Bytes} (q : Bytes) (h : authLength p ≤ p.length) :
    OffersNoAuth (p ++ q) ↔ OffersNoAuth p := by
  have h2 : 2 ≤ p.length := by rw [authLength] at h; omega
  rw [OffersNoAuth, authLength_append q h2, slice_append_right q h, OffersNoAuth]

theorem handshake_selection (h5 : reads.flatten.head? = some socks5Version)
    (h : authLength reads.flatten ≤ reads.flatten.length) (hfew : authLength reads.flatten ≤ 4)
    (hlen : reads.flatten.length ≤ maxHandshake)
    (hsafe : ¬ OffersNoAuth reads.flatten ∨ RequestSplitSafe (reads.flatten.drop (authLength reads.flatten))) :
    finishSocksHandshake text reads = selected text reads.flatten [] := by
  obtain ⟨p, rest, hflat, hp, hrun⟩ := run_selection text {} reads rfl rfl rfl rfl h5 h hfew hlen
  have hsent : reads.flatten = p ++ rest.flatten := hflat.symm
  have h2 : 2 ≤ p.length := by rw [authLength] at hp; omega
  rw [hsent, offersNoAuth_append _ hp, authLength_append _ h2, drop_append_of_le_length hp] at hsafe
  rw [finishSocksHandshake, hrun, hsent]
  unfold selected
  rw [authLength_append _ h2, drop_append_of_le_length hp]
  simp only [offersNoAuth_append _ hp]
  by_cases hno : OffersNoAuth p
  · rw [if_pos hno, if_pos hno]
    exact afterSelection_split text (hsafe.resolve_left (not_not.mpr hno))
  · rw [if_neg hno, if_neg hno]

/-- `SplitSafe` bytes come to the same outcome in all reads, those that return nothing included. -/
theorem handshake_splitSafe (h : SplitSafe sent) :
    ∃ outcome, ∀ reads : List Bytes, reads.flatten = sent → finishSocksHandshake text reads = outcome := by
  cases hsent : sent with
  | nil =>
    exact ⟨.needMore [], fun reads hflat =>
      run_dispatch text {} [] reads hflat rfl rfl (.inl (by decide)) (.inr (by decide))⟩
  | cons version tail =>
    have hhead : sent.head? = some version := by rw [hsent]; rfl
    simp only [← hsent]
    unfold SplitSafe at h
    rw [hsent] at h
    simp only [← hsent] at h
    by_cases h4 : version = socks4Version
    · have h5 : sent.head? ≠ some socks5Version := by
        rw [hhead, h4]
        decide
      rw [if_pos h4, ← socks4Request_error_iff text, ← dispatch_socks4 text (h4 ▸ hsent)] at h
      exact ⟨_, fun reads hflat => run_dispatch text {} [] reads hflat rfl rfl h (.inr h5)⟩
    rw [if_neg h4] at h
    by_cases h5 : version = socks5Version
    · have hhead5 : sent.head? = some socks5Version := by rw [hhead, h5]
      rw [if_pos h5] at h
      by_cases hsh : sent.length < authLength sent
      · refine ⟨if sent.length < 4 then .needMore [] else .rejected [], ?_⟩
        intro reads hflat
        exact run_unfinished text {} reads hflat rfl rfl rfl hhead5 hsh
      obtain ⟨hlen, hfew, hsafe⟩ := h.resolve_left hsh
      refine ⟨selected text sent [], ?_⟩
      rintro reads rfl
      exact handshake_selection text hhead5 (Nat.le_of_not_lt hsh) hfew hlen hsafe
    · have hhead5 : sent.head? ≠ some socks5Version := by simpa [hhead] using h5
      have hdispatch : dispatch text sent = .error "Unsupported SOCKS version" := by
        rw [hsent, dispatch, if_neg h4, if_neg h5]
      exact ⟨_, fun reads hflat => run_dispatch text {} [] reads hflat rfl rfl (.inr ⟨_, hdispatch⟩) (.inr hhead5)⟩

end Handshake

/-- Every way of splitting `sent` into reads comes to what `sent` in one read does. -/
def SplitIndependent (text : HostText) (sent : Bytes) : Prop :=
  ∀ reads : List Bytes, (∀ read ∈ reads, read ≠ []) → reads.flatten = sent →
    finishSocksHandshake text reads = finishSocksHandshake text [sent]

section Necessity
variable {tail : Bytes}

variable {text : HostText} {sent : Bytes} (hind : SplitIndependent text sent)

include hind

/-- Cutting the bytes in two changes nothing. -/
theorem SplitIndependent.cut {n : Nat} (h0 : 0 < n) (hn : n < sent.length) :
    finishSocksHandshake text [sent.take n, sent.drop n] = finishSocksHandshake text [sent] := by
  refine hind _ ?_ (by simp)
  intro read hread
  simp only [mem_cons, not_mem_nil, or_false] at hread
  rcases hread with rfl | rfl
  · exact ne_nil_of_length_pos (by rw [length_take]; omega)
  · exact ne_nil_of_length_pos (by rw [length_drop]; omega)

theorem socks4_safe (hsent : sent = socks4Version :: tail) :
    sent.length ≤ maxHandshake ∨ Socks4Refused sent := by
  by_cases hlen : sent.length ≤ maxHandshake
  · exact .inl hlen
  have hlg := Nat.lt_of_not_le hlen
  right
  have hn : 520 < sent.length := by rw [maxHandshake] at hlg; omega
  have htake : sent.take 520 = socks4Version :: tail.take 519 := by rw [hsent]; rfl
  have hlen' : (sent.take 520).length = 520 := by rw [length_take]; omega
  have hdecides : dispatch text (sent.take 520) ≠ .needMore := by
    rw [dispatch_socks4 text htake]
    exact socks4Request_decides text (by rw [hlen']; decide)
  have hcut := hind.cut (by decide) hn
  have hrun := run_decided text { input := sent.take 520 } [] [sent.drop 520] (show _ = sent by simp) rfl rfl
    (by rw [hlen']; decide) (.inr (by simp [htake, socks4Version, socks5Version])) hdecides
  rw [handshake_cons, hrun, handshake_large text hlg, conclude_eq_rejected_iff, dispatch_socks4 text hsent,
    socks4Request_error_iff] at hcut
  exact hcut

omit hind in
/-- The method selection at the front of the bytes is complete in itself. -/
theorem take_authLength (h : authLength sent ≤ sent.length) :
    (sent.take (authLength sent)).length = authLength sent ∧
      authLength (sent.take (authLength sent)) = authLength sent := by
  have hlen : (sent.take (authLength sent)).length = authLength sent := by
    rw [length_take]
    omega
  have h2 : 2 ≤ (sent.take (authLength sent)).length := by
    rw [hlen, authLength]
    omega
  have happ := authLength_append (sent.drop (authLength sent)) h2
  rw [take_append_drop] at happ
  exact ⟨hlen, happ.symm⟩

omit hind in
theorem head?_take {n : Nat} (hsent : sent = socks5Version :: tail) (hn : 0 < n) :
    (sent.take n).head? = some socks5Version := by
  obtain ⟨m, rfl⟩ : ∃ m, n = m + 1 := ⟨n - 1, by omega⟩
  rw [hsent]
  rfl

omit hind in
/-- The reads that cut the bytes after their method selection. -/
theorem handshake_cut (hsent : sent = socks5Version :: tail)
    (h : authLength sent ≤ sent.length) (hlen : sent.length ≤ maxHandshake) :
    finishSocksHandshake text [sent.take (authLength sent), sent.drop (authLength sent)] =
      selected text (sent.take (authLength sent)) [sent.drop (authLength sent)] := by
  obtain ⟨htake, hauth⟩ := take_authLength h
  have h0 : 0 < authLength sent := by rw [authLength]; omega
  exact run_selected text { input := sent.take (authLength sent) } _ rfl rfl (head?_take hsent h0)
    (by rw [hauth, htake]) (by simpa using hlen)

omit hind in
theorem handshake_whole (hsent : sent = socks5Version :: tail)
    (h : authLength sent ≤ sent.length) (hlen : sent.length ≤ maxHandshake) :
    finishSocksHandshake text [sent] = selected text sent [] := by
  exact run_selected text { input := sent } [] rfl rfl (by rw [hsent]; rfl) h (by simpa using hlen)

/-- Of a longer input the replies to the method selection are lost when it comes in one read. -/
theorem socks5_length_le (hsent : sent = socks5Version :: tail)
    (h : authLength sent ≤ sent.length) : sent.length ≤ maxHandshake := by
  by_contra hlen
  have hlg := Nat.lt_of_not_le hlen
  obtain ⟨htake, hauth⟩ := take_authLength h
  have h0 : 0 < authLength sent := by rw [authLength]; omega
  have hsh : authLength sent ≤ 257 := by
    have := (sent.getD 1 0).toNat_lt
    rw [authLength]
    omega
  have hcut := hind.cut h0 (by rw [maxHandshake] at hlg; omega)
  have hlen' : (sent.take (authLength sent)).length ≤ maxHandshake := by rw [htake, maxHandshake]; omega
  have hhead := head?_take hsent h0
  rw [handshake_large text hlg, handshake_cons] at hcut
  by_cases hno : OffersNoAuth (sent.take (authLength sent))
  · have hfeed : SocksHandshake.feed text { input := sent.take (authLength sent) } = _ :=
      feed_offered text rfl hlen' rfl hhead (by rw [hauth, htake]) hno
    have hrest : (authed { input := sent.take (authLength sent) }).input = [] := by
      show (sent.take (authLength sent)).drop (authLength (sent.take (authLength sent))) = []
      rw [hauth]
      exact drop_eq_nil_of_le htake.le
    rw [hrest] at hfeed
    rw [loop_needMore_cons hfeed] at hcut
    have hwr := hcut ▸ written_isPrefix text _ _ []
    exact absurd hwr (by simp [SocksOutcome.written, authed])
  · have hfeed : SocksHandshake.feed text { input := sent.take (authLength sent) } = _ :=
      feed_refused text rfl hlen' rfl hhead (by rw [hauth, htake]) hno
    rw [loop_error hfeed] at hcut
    cases hcut

omit hind in
theorem selected_ne_rejected (p : Bytes) (reads : List Bytes) : selected text p reads ≠ .rejected [] := by
  unfold selected
  by_cases hno : OffersNoAuth p
  · rw [if_pos hno, afterSelection]
    cases socks5Request text (p.drop (authLength p)) with
    | needMore =>
      split_ifs
      · simp
      · cases dispatch text (p.drop (authLength p) ++ reads.flatten) <;> simp [conclude, noAuthReply]
    | error message => simp [noAuthReply]
    | destination host port n => simp
  · simp [hno, noAcceptableReply]

section
variable (hsent : sent = socks5Version :: tail) (h : authLength sent ≤ sent.length)
  (hlen : sent.length ≤ maxHandshake)
include hsent h hlen

/-- Of a longer method selection the first four bytes alone are an error. -/
theorem socks5_methods_le : authLength sent ≤ 4 := by
  by_contra hmany
  have htake : (sent.take 4).length = 4 := by rw [length_take]; omega
  have hauth := authLength_append (sent.drop 4) (show 2 ≤ (sent.take 4).length by omega)
  rw [take_append_drop] at hauth
  have hfeed : SocksHandshake.feed text { input := sent.take 4 } = _ :=
    feed_unfinished text rfl (by rw [htake]; decide) rfl rfl (head?_take hsent (by decide))
      (by rw [htake, ← hauth]; omega)
  rw [if_neg (by rw [htake]; decide)] at hfeed
  have hcut := hind.cut (show 0 < 4 by decide) (by omega)
  rw [handshake_cons, loop_error hfeed, handshake_whole hsent h hlen] at hcut
  exact selected_ne_rejected sent [] hcut.symm

theorem socks5_request_safe (hno : OffersNoAuth sent) : RequestSplitSafe (sent.drop (authLength sent)) := by
  by_cases hrest : sent.length ≤ authLength sent
  · rw [drop_eq_nil_of_le hrest]
    exact trivial
  obtain ⟨htake, hauth⟩ := take_authLength h
  have h0 : 0 < authLength sent := by rw [authLength]; omega
  have hno' : OffersNoAuth (sent.take (authLength sent)) := by
    rwa [← offersNoAuth_append (sent.drop (authLength sent)) (by rw [htake, hauth]), take_append_drop]
  have hcut := hind.cut h0 (by omega)
  rw [handshake_cut hsent h hlen, handshake_whole hsent h hlen, selected, selected, if_pos hno, if_pos hno',
    hauth, drop_take, Nat.sub_self, take_zero] at hcut
  exact (requestSplitSafe_iff text _).mpr (by simpa [afterSelection, socks5Request] using hcut)

end

end Necessity

/-- **When the reads do not matter.** -/
theorem split_independent_iff (text : HostText) (sent : Bytes) :
    SplitIndependent text sent ↔ SplitSafe sent := by
  constructor
  · intro hind
    unfold SplitSafe
    cases hsent : sent with
    | nil => exact trivial
    | cons version tail =>
      simp only [← hsent]
      split_ifs with h4 h5
      · exact socks4_safe hind (h4 ▸ hsent)
      have hsent5 : sent = socks5Version :: tail := h5 ▸ hsent
      by_cases h : sent.length < authLength sent
      · exact .inl h
      have hlen := socks5_length_le hind hsent5 (Nat.le_of_not_lt h)
      refine .inr ⟨hlen, socks5_methods_le hind hsent5 (Nat.le_of_not_lt h) hlen, ?_⟩
      by_cases hno : OffersNoAuth sent
      · exact .inr (socks5_request_safe hind hsent5 (Nat.le_of_not_lt h) hlen hno)
      · exact .inl hno
  · intro hsafe reads _ hflat
    obtain ⟨outcome, hall⟩ := handshake_splitSafe text hsafe
    rw [hall reads hflat, hall [sent] (by simp)]

/-- Names in ASCII, and no IPv6 addresses. -/
def asciiText : HostText := ⟨fun bytes => String.ofList (bytes.map fun byte => Char.ofNat byte.toNat), fun _ => ""⟩

/-- A client that sends its request with the method selection, as pipelining clients do, is never told which
method was selected. -/
theorem pipelined_reply_dropped :
    finishSocksHandshake asciiText [[5, 1, 0], [5, 1, 0, 1, 127, 0, 0, 1, 0, 80]] =
        .accepted ⟨some "127.0.0.1", some 80⟩ 5 [] [5, 0] ∧
      finishSocksHandshake asciiText [[5, 1, 0, 5, 1, 0, 1, 127, 0, 0, 1, 0, 80]] =
        .accepted ⟨some "127.0.0.1", some 80⟩ 5 [] [] := by
  decide +kernel

-- A method selection that a read cuts after its fourth byte is refused.
example :
    finishSocksHandshake asciiText [[5, 3, 0, 1], [2]] = .rejected [] ∧
      finishSocksHandshake asciiText [[5, 3, 0, 1, 2]] = .needMore [5, 0] := by
  decide +kernel

end EternalTerminal
