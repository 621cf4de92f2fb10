import EternalTerminal.Lib.Bytes

/-!
# Client — the patterns of `SendEnv`

`environment_pattern_matches` reads the pattern and the name from their front, and goes back to the last `*` when it
cannot read on.  A byte of the pattern that equals the byte of the name stands for that byte, and so does a `*` in
front of a `*` of the name, to which it does not go back.

Main results: `environmentPatternMatches_iff`, `sendEnv_star_kept`.
-/

namespace EternalTerminal
open List

def asterisk : UInt8 := 0x2a
def questionMark : UInt8 := 0x3f
def removeMark : UInt8 := 0x2d

/-- The loop, with what is left of the pattern and of the name.  `star` is what it goes back to: the pattern behind the
last `*`, and the part of the name that was tried there last. -/
def matchFrom (pattern name : Bytes) (star : Option (Bytes × Bytes))
    (hstar : ∀ s ∈ star, pattern.length ≤ s.1.length ∧ name.length ≤ s.2.length) : Bool :=
  match name with
  | [] => pattern.dropWhile (· = asterisk) = []
  | x :: rest =>
    if hbyte : pattern.head? = some questionMark ∨ pattern.head? = some x then
      matchFrom pattern.tail rest star fun s hs => by
        have := hstar s hs
        rw [length_tail]
        simp only [length_cons] at this
        omega
    else if hbytes : pattern.head? = some asterisk then
      matchFrom pattern.tail (x :: rest) (some (pattern.tail, x :: rest)) fun s hs => by
        cases hs
        exact ⟨le_rfl, le_rfl⟩
    else
      match star with
      | some (after, _ :: retry) => matchFrom after retry (some (after, retry)) fun s hs => by
          cases hs
          exact ⟨le_rfl, le_rfl⟩
      | some (_, []) | none => false
  termination_by (star.elim pattern.length (·.1.length), star.elim 0 (·.2.length), name.length)
  decreasing_by
    · cases star with
      | none =>
        have hne : pattern ≠ [] := by
          rintro rfl
          simp at hbyte
        have := length_pos_of_ne_nil hne
        exact .left _ _ (by simp; omega)
      | some s => exact .right _ (.right _ (by simp))
    · have hne : pattern ≠ [] := by
        rintro rfl
        simp at hbytes
      have hpos := length_pos_of_ne_nil hne
      cases star with
      | none => exact .left _ _ (by simp; omega)
      | some s =>
        have := (hstar s rfl).1
        exact .left _ _ (by simp; omega)
    · exact .right _ (.left _ _ (by simp))

def environmentPatternMatches (pattern name : Bytes) : Bool := matchFrom pattern name none nofun

/-- The `sendenv` option of `apply_session_options`, with the words of its value. -/
def applySendEnv (sendEnv : List Bytes) (words : List Bytes) : List Bytes :=
  words.foldl (fun sendEnv word =>
    if word.head? = some removeMark then
      sendEnv.filter fun existing => !environmentPatternMatches word.tail existing
    else sendEnv ++ [word]) sendEnv

/-- The name matches the pattern: `*` stands for any bytes and `?` for any single one. -/
inductive PatternMatches : Bytes → Bytes → Prop where
  | nil : PatternMatches [] []
  | anyBytes {pattern name : Bytes} (skipped : Bytes) (h : PatternMatches pattern name) :
      PatternMatches (asterisk :: pattern) (skipped ++ name)
  | anyByte {pattern name : Bytes} (byte : UInt8) (h : PatternMatches pattern name) :
      PatternMatches (questionMark :: pattern) (byte :: name)
  | byte {pattern name : Bytes} {byte : UInt8} (hbytes : byte ≠ asterisk)
      (hbyte : byte ≠ questionMark) (h : PatternMatches pattern name) :
      PatternMatches (byte :: pattern) (byte :: name)

/-- The name matches the pattern as the loop reads them: a `*` in front of a `*` byte stands for exactly that byte. -/
inductive ReadMatches : Bytes → Bytes → Prop where
  | nil : ReadMatches [] []
  | same {pattern name : Bytes} (byte : UInt8) (h : ReadMatches pattern name) :
      ReadMatches (byte :: pattern) (byte :: name)
  | anyByte {pattern name : Bytes} (byte : UInt8) (h : ReadMatches pattern name) :
      ReadMatches (questionMark :: pattern) (byte :: name)
  | anyBytes {pattern name : Bytes} (skipped : Bytes) (hfront : (skipped ++ name).head? ≠ some asterisk)
      (h : ReadMatches pattern name) : ReadMatches (asterisk :: pattern) (skipped ++ name)

namespace ReadMatches
variable {pattern name : Bytes} {c x : UInt8}

theorem patternMatches (h : ReadMatches pattern name) : PatternMatches pattern name := by
  induction h with
  | nil => exact .nil
  | same byte _ ih =>
    by_cases hbytes : byte = asterisk
    · subst hbytes
      exact .anyBytes [asterisk] ih
    by_cases hbyte : byte = questionMark
    · subst hbyte
      exact .anyByte _ ih
    exact .byte hbytes hbyte ih
  | anyByte byte _ ih => exact .anyByte byte ih
  | anyBytes skipped _ _ ih => exact .anyBytes skipped ih

/-- Where no star can be in front of a star, the loop can read every match. -/
theorem of_patternMatches (h : PatternMatches pattern name) (hplain : asterisk ∉ name ∨ asterisk ∉ pattern) :
    ReadMatches pattern name := by
  induction h with
  | nil => exact .nil
  | anyBytes skipped _ ih =>
    have hname : asterisk ∉ skipped ++ _ := hplain.resolve_right (absurd mem_cons_self)
    refine .anyBytes skipped (fun hfront => hname (mem_of_head? hfront)) (ih (.inl fun hmem => hname ?_))
    exact mem_append_right _ hmem
  | anyByte byte _ ih => exact .anyByte byte (ih (hplain.imp (mt (mem_cons_of_mem _)) (mt (mem_cons_of_mem _))))
  | byte _ _ _ ih => exact .same _ (ih (hplain.imp (mt (mem_cons_of_mem _)) (mt (mem_cons_of_mem _))))

theorem nil_iff : ReadMatches [] name ↔ name = [] :=
  ⟨fun h => by cases h; rfl, fun h => h ▸ .nil⟩

theorem cons_iff : ReadMatches (c :: pattern) name ↔
    (∃ x rest, name = x :: rest ∧ (c = questionMark ∨ c = x) ∧ ReadMatches pattern rest) ∨
      c = asterisk ∧ name.head? ≠ some asterisk ∧ ∃ rest, rest <:+ name ∧ ReadMatches pattern rest := by
  constructor
  · intro h
    cases h with
    | same byte h => exact .inl ⟨c, _, rfl, .inr rfl, h⟩
    | anyByte byte h => exact .inl ⟨byte, _, rfl, .inl rfl, h⟩
    | anyBytes skipped hfront h => exact .inr ⟨rfl, hfront, _, suffix_append _ _, h⟩
  · rintro (⟨x, rest, rfl, rfl | rfl, h⟩ | ⟨rfl, hfront, rest, ⟨skipped, rfl⟩, h⟩)
    · exact .anyByte x h
    · exact .same c h
    · exact .anyBytes skipped hfront h

/-- A byte of the pattern that reads the byte of the name. -/
theorem read_iff {rest : Bytes} (hc : c = questionMark ∨ c = x) :
    ReadMatches (c :: pattern) (x :: rest) ↔ ReadMatches pattern rest := by
  rw [cons_iff]
  constructor
  · rintro (⟨_, _, heq, -, h⟩ | ⟨rfl, hfront, -⟩)
    · cases heq
      exact h
    · exact absurd (congrArg some (hc.resolve_left (by decide)).symm) hfront
  · exact fun h => .inl ⟨x, rest, rfl, hc, h⟩

/-- A star in front of another byte. -/
theorem star_iff {rest : Bytes} (hx : x ≠ asterisk) :
    ReadMatches (asterisk :: pattern) (x :: rest) ↔ ∃ later, later <:+ x :: rest ∧ ReadMatches pattern later := by
  rw [cons_iff]
  constructor
  · rintro (⟨_, _, heq, hread, -⟩ | ⟨-, -, h⟩)
    · cases heq
      exact absurd (hread.resolve_left (by decide)).symm hx
    · exact h
  · exact fun h => .inr ⟨rfl, by simpa using hx, h⟩

/-- Only a pattern of stars matches the empty name. -/
theorem name_nil_iff : ReadMatches pattern [] ↔ pattern.dropWhile (· = asterisk) = [] := by
  induction pattern with
  | nil => exact ⟨fun _ => rfl, fun _ => .nil⟩
  | cons c pattern ih =>
    rw [cons_iff]
    by_cases hc : c = asterisk
    · subst hc
      rw [dropWhile_cons_of_pos (by simp), ← ih]
      simp [suffix_nil]
    · rw [dropWhile_cons_of_neg (by simpa using hc)]
      simp [hc]

/-- No byte of the pattern reads the next byte of the name. -/
theorem not_of_stuck {rest : Bytes} (hbyte : ¬(pattern.head? = some questionMark ∨ pattern.head? = some x))
    (hbytes : ¬pattern.head? = some asterisk) : ¬ReadMatches pattern (x :: rest) := by
  intro h
  cases pattern with
  | nil => exact nomatch nil_iff.mp h
  | cons c pattern =>
    rcases cons_iff.mp h with ⟨_, _, heq, hc, -⟩ | ⟨hc, -⟩
    · cases heq
      exact hbyte (hc.imp (congrArg some) (congrArg some))
    · exact hbytes (congrArg some hc)

end ReadMatches

/-- What the loop has read since the last star: the bytes of the name one by one, a star only in front of a star. -/
def ReadSince (pattern name : Bytes) (s : Bytes × Bytes) : Prop :=
  ∃ segment read, s.1 = segment ++ pattern ∧ s.2 = read ++ name ∧
    Forall₂ (fun c x => c = asterisk → x = asterisk) segment read

/-- The name can be matched at a later place of the last star. -/
def MatchesLater (s : Bytes × Bytes) : Prop := ∃ later, later <:+ s.2.tail ∧ ReadMatches s.1 later

/-- A match from a later place reaches what was read here with at most what is left of the name. -/
theorem ReadMatches.drop_segment {pattern name later segment read : Bytes}
    (hread : Forall₂ (fun c x => c = asterisk → x = asterisk) segment read) (hsuffix : later <:+ read ++ name)
    (h : ReadMatches (segment ++ pattern) later) : ∃ left, left <:+ name ∧ ReadMatches pattern left := by
  induction hread generalizing later with
  | nil => exact ⟨later, hsuffix, h⟩
  | @cons c x segment read hstar _ ih =>
    rcases cons_iff.mp h with ⟨y, rest, rfl, -, h⟩ | ⟨rfl, hfront, rest, hrest, h⟩
    · refine ih ?_ h
      rcases suffix_cons_iff.mp hsuffix with heq | hsuffix
      · cases heq
        exact suffix_rfl
      · exact (suffix_cons y rest).trans hsuffix
    · obtain rfl := hstar rfl
      rcases suffix_cons_iff.mp hsuffix with rfl | hsuffix
      · exact absurd rfl hfront
      · exact ih (hrest.trans hsuffix) h

theorem MatchesLater.left {pattern name : Bytes} {s : Bytes × Bytes} (hread : ReadSince pattern name s)
    (h : MatchesLater s) : ∃ left, left <:+ name ∧ ReadMatches pattern left := by
  obtain ⟨segment, read, hsplit, hname, hread⟩ := hread
  obtain ⟨later, hsuffix, h⟩ := h
  exact (hsplit ▸ h).drop_segment hread (hname ▸ hsuffix.trans (tail_suffix _))

theorem ReadSince.start (after name : Bytes) : ∀ s ∈ some (after, name), ReadSince after name s := by
  rintro s ⟨⟩
  exact ⟨[], [], rfl, rfl, .nil⟩

/-- From a star on, here or later. -/
theorem here_or_later_iff {after name : Bytes} :
    (ReadMatches after name ∨ ∃ s ∈ some (after, name), MatchesLater s) ↔
      ∃ later, later <:+ name ∧ ReadMatches after later := by
  constructor
  · rintro (h | ⟨s, ⟨⟩, later, hsuffix, h⟩)
    · exact ⟨name, suffix_rfl, h⟩
    · exact ⟨later, hsuffix.trans (tail_suffix _), h⟩
  · rintro ⟨later, hsuffix, h⟩
    cases name with
    | nil => exact .inl (suffix_nil.mp hsuffix ▸ h)
    | cons x name =>
      rcases suffix_cons_iff.mp hsuffix with rfl | hsuffix
      · exact .inl h
      · exact .inr ⟨_, rfl, later, hsuffix, h⟩

/-- **The loop finds a match it can read exactly if there is one** from where it is, or from a later place of the last
star. The stars before that one need no second try: what follows them was matched as early as it can be. -/
theorem matchFrom_iff {pattern name : Bytes} {star : Option (Bytes × Bytes)}
    {hstar : ∀ s ∈ star, pattern.length ≤ s.1.length ∧ name.length ≤ s.2.length}
    (hread : ∀ s ∈ star, ReadSince pattern name s) :
    matchFrom pattern name star hstar = true ↔ ReadMatches pattern name ∨ ∃ s ∈ star, MatchesLater s := by
  fun_induction matchFrom pattern name star hstar with
  | case1 pattern star hstar =>
    rw [or_iff_left_of_imp, ReadMatches.name_nil_iff, decide_eq_true_iff]
    rintro ⟨s, hs, h⟩
    obtain ⟨left, hleft, h⟩ := h.left (hread s hs)
    exact suffix_nil.mp hleft ▸ h
  | case2 pattern star x rest hstar hbyte _ ih =>
    obtain ⟨c, pattern, rfl⟩ : ∃ c tail, pattern = c :: tail := by
      cases pattern with
      | nil => simp at hbyte
      | cons c tail => exact ⟨c, tail, rfl⟩
    simp only [head?_cons, Option.some.injEq] at hbyte
    rw [ReadMatches.read_iff hbyte]
    refine ih fun s hs => ?_
    obtain ⟨segment, read, hsplit, hname, hread⟩ := hread s hs
    refine ⟨segment ++ [c], read ++ [x], by simpa using hsplit, by simpa using hname, ?_⟩
    refine rel_append hread (.cons (fun hc => ?_) .nil)
    subst hc
    exact (hbyte.resolve_left (by decide)).symm
  | case3 pattern star x rest hstar hbyte hbytes _ ih =>
    obtain ⟨pattern, rfl⟩ : ∃ tail, pattern = asterisk :: tail := by
      cases pattern with
      | nil => simp at hbytes
      | cons c tail => exact ⟨tail, by simpa using hbytes⟩
    have hx : x ≠ asterisk := fun hx => hbyte (.inr (congrArg some hx.symm))
    rw [ih (.start _ _), here_or_later_iff]
    refine (ReadMatches.star_iff hx).symm.trans (or_iff_left_of_imp ?_).symm
    rintro ⟨s, hs, h⟩
    obtain ⟨left, hleft, h⟩ := h.left (hread s hs)
    refine (ReadMatches.star_iff hx).mpr ?_
    rcases ReadMatches.cons_iff.mp h with ⟨y, later, rfl, -, h⟩ | ⟨-, -, later, hlater, h⟩
    · exact ⟨later, (suffix_cons y later).trans hleft, h⟩
    · exact ⟨later, hlater.trans hleft, h⟩
  | case4 pattern x rest hbyte hbytes after y retry _ _ ih =>
    rw [ih (.start _ _), here_or_later_iff, or_iff_right (ReadMatches.not_of_stuck hbyte hbytes)]
    constructor
    · exact fun h => ⟨_, rfl, h⟩
    · rintro ⟨s, ⟨⟩, h⟩
      exact h
  | case5 pattern x rest hbyte hbytes after hstar =>
    exact absurd (hstar _ rfl).2 (by simp)
  | case6 pattern x rest hbyte hbytes =>
    rw [or_iff_right (ReadMatches.not_of_stuck hbyte hbytes)]
    simp

/-- **A name is matched as it should be exactly if it does not match the pattern, or has a match the loop can read**, one
in which every `*` of the pattern in front of a `*` of the name stands for that byte; so it is whenever one of the two
has no `*`. -/
theorem environmentPatternMatches_iff (pattern name : Bytes) :
    ((environmentPatternMatches pattern name = true ↔ PatternMatches pattern name) ↔
      (PatternMatches pattern name → ReadMatches pattern name)) ∧
    (asterisk ∉ name ∨ asterisk ∉ pattern → PatternMatches pattern name → ReadMatches pattern name) := by
  have hread : environmentPatternMatches pattern name = true ↔ ReadMatches pattern name := by
    rw [environmentPatternMatches, matchFrom_iff (by simp)]
    simp
  refine ⟨?_, fun hplain h => .of_patternMatches h hplain⟩
  rw [hread]
  exact ⟨Iff.mpr, fun h => ⟨ReadMatches.patternMatches, h⟩⟩

/-- **`SendEnv=-*` keeps an entry that begins with a `*`**, which `*` matches. -/
theorem sendEnv_star_kept :
    applySendEnv [] [[asterisk, 0x41], [removeMark, asterisk]] = [[asterisk, 0x41]] ∧
      PatternMatches [asterisk] [asterisk, 0x41] := by
  refine ⟨?_, .anyBytes [asterisk, 0x41] .nil⟩
  simp [applySendEnv, environmentPatternMatches, matchFrom, removeMark, asterisk]

end EternalTerminal
