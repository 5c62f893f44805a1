import JsonAudit.Path.Scanner

/-!
# What a scanner remembers

A scanner is `Sound` if a quoted literal is open or awaited only inside brackets, and never
both at once; every scanner run from the start is.  It is `Settled` if, besides, no bracket is
open.  Two scanners are `Alike` if they differ at most in a last character that matters no more:
they read every text in the same way.  A settled scanner is like the one before the first
character, and it stays settled on a text without `[`.
-/

namespace JsonAudit.Scanner

/-! ### One character -/

/-- There are four kinds of a step: inside a quoted literal, over a blank before one, over the
mark that opens one, and outside. -/
theorem next_cases {motive : Scanner → Prop} (s : Scanner) (c : Char)
    (quoted : ∀ mark, s.quote = some mark →
      motive { s with quote := if c == mark then none else some mark, previous := some c })
    (waiting : s.quote = none → s.awaitingLiteral = true → motive { s with previous := some c })
    (opening : s.quote = none → s.awaitingLiteral = true →
      motive { s with quote := some c, awaitingLiteral := false, previous := some c })
    (plain : s.quote = none → motive (s.nextPlain c)) :
  motive (s.next c)
  := by
  rw [next]
  split
  · rename_i mark hq
    apply quoted mark hq
  · rename_i hq
    split
    · rename_i ha
      split
      · apply waiting hq ha
      · split
        · apply opening hq ha
        · apply plain hq
    · apply plain hq

/-- After a plain character no quoted literal is open, and one is awaited only inside brackets. -/
theorem nextPlain_spec (s : Scanner) (c : Char) :
  (s.nextPlain c).quote = none
    ∧ ((s.nextPlain c).awaitingLiteral = true → 0 < (s.nextPlain c).depth)
  := by
  unfold nextPlain
  split <;> simp
  intro h _
  apply h

/-! ### Soundness -/

/-- Quoted literals stand inside brackets, and a literal that is open is not awaited. -/
structure Sound (s : Scanner) : Prop where
  quote : s.quote ≠ none → 0 < s.depth
  awaiting : s.awaitingLiteral = true → 0 < s.depth
  apart : s.quote ≠ none → s.awaitingLiteral = false

theorem sound_start (depth : Nat) :
  (start depth).Sound
  := ⟨fun h => absurd rfl h, nofun, fun _ => rfl⟩

/-- A character keeps the scanner sound. -/
theorem Sound.next {s : Scanner} (h : s.Sound) (c : Char) :
  (s.next c).Sound
  := by
  apply next_cases s c
  · intro mark hq
    have hne : s.quote ≠ none := by simp [hq]
    constructor
    · intro _
      apply h.quote hne
    · apply h.awaiting
    · intro _
      apply h.apart hne
  · intro _ _
    constructor
    · apply h.quote
    · apply h.awaiting
    · apply h.apart
  · intro _ ha
    constructor
    · intro _
      apply h.awaiting ha
    · intro hf
      cases hf
    · intro _
      rfl
  · intro _
    obtain ⟨hq, ha⟩ := nextPlain_spec s c
    constructor
    · intro hne
      cases hne hq
    · apply ha
    · intro hne
      cases hne hq

/-- A text keeps the scanner sound. -/
theorem Sound.run {s : Scanner} (h : s.Sound) (text : List Char) :
  (s.run text).Sound
  := by
  induction text generalizing s with
  | nil => apply h
  | cons c rest ih => apply ih (h.next c)

/-! ### Reading alike -/

/-- The scanners differ at most in their last characters, and there only if no bracket is open
or neither can stand before the `=` that ends an operator. -/
structure Alike (s t : Scanner) : Prop where
  depth : s.depth = t.depth
  quote : s.quote = t.quote
  awaiting : s.awaitingLiteral = t.awaitingLiteral
  previous : 0 < t.depth → s.previous.any beginsOperator = t.previous.any beginsOperator

theorem Alike.refl (s : Scanner) :
  s.Alike s
  := ⟨rfl, rfl, rfl, fun _ => rfl⟩

/-- Scanners that are alike are the same after the next character. -/
theorem Alike.next_eq {s t : Scanner} (h : s.Alike t) (c : Char) :
  s.next c = t.next c
  := by
  obtain ⟨depth, quote, awaiting, previous⟩ := s
  obtain ⟨depth', quote', awaiting', previous'⟩ := t
  obtain ⟨hd, hq, ha, hp⟩ := h
  simp only at hd hq ha hp
  subst hd hq ha
  have hplain : nextPlain ⟨depth, quote, awaiting, previous⟩ c
      = nextPlain ⟨depth, quote, awaiting, previous'⟩ c := by
    unfold nextPlain
    split <;> try rfl
    by_cases hz : 0 < depth
    · simp only [hp hz]
    · simp only [hz, decide_false, Bool.false_and]
  simp only [next, hplain]

theorem Alike.isPlain_eq {s t : Scanner} (h : s.Alike t) (c : Char) :
  s.isPlain c = t.isPlain c
  := by
  simp only [isPlain, h.quote, h.awaiting]

theorem Alike.isOutermost_eq {s t : Scanner} (h : s.Alike t) (mark c : Char) :
  s.isOutermost mark c = t.isOutermost mark c
  := by
  simp only [isOutermost, h.isPlain_eq, h.next_eq]

/-- Scanners that read alike do so after any text. -/
theorem Alike.run {s t : Scanner} (h : s.Alike t) (text : List Char) :
  (s.run text).Alike (t.run text)
  := by
  cases text with
  | nil => apply h
  | cons c rest =>
    have hc : s.run (c :: rest) = t.run (c :: rest) := by
      simp only [Scanner.run, List.foldl_cons, h.next_eq]
    rw [hc]
    apply Alike.refl

/-! ### Outside brackets -/

/-- No bracket is open, and no quoted literal is open or awaited. -/
structure Settled (s : Scanner) : Prop where
  depth : s.depth = 0
  quote : s.quote = none
  awaiting : s.awaitingLiteral = false

/-- At the beginning of a path the scanner is settled. -/
theorem settled_start :
  (start 0).Settled
  := ⟨rfl, rfl, rfl⟩

/-- A sound scanner is settled as soon as no bracket is open. -/
theorem Sound.settled {s : Scanner} (h : s.Sound) (hd : s.depth = 0) :
  s.Settled
  := by
  constructor
  · apply hd
  · cases hq : s.quote with
    | none => rfl
    | some mark =>
      have := h.quote (by simp [hq])
      omega
  · cases ha : s.awaitingLiteral with
    | false => rfl
    | true =>
      have := h.awaiting ha
      omega

/-- A settled scanner reads as at the beginning of a path. -/
theorem Settled.alike_start {s : Scanner} (h : s.Settled) :
  s.Alike (start 0)
  := ⟨h.depth, h.quote, h.awaiting, fun hd => absurd hd (Nat.lt_irrefl 0)⟩

/-- Outside brackets only `[` opens anything. -/
theorem Settled.next {s : Scanner} (h : s.Settled) {c : Char} (hc : c ≠ '[') :
  (s.next c).Settled
  := by
  rw [h.alike_start.next_eq]
  apply ((sound_start 0).next c).settled
  show ((start 0).nextPlain c).depth = 0
  unfold nextPlain
  split
  · cases hc rfl
  · rfl
  · rfl
  · rfl

/-- A text without a bracket keeps the scanner settled. -/
theorem Settled.run {s : Scanner} (h : s.Settled) {text : List Char} (ht : '[' ∉ text) :
  (s.run text).Settled
  := by
  induction text generalizing s with
  | nil => apply h
  | cons c rest ih =>
    obtain ⟨hc, hr⟩ := not_or.mp (mt List.mem_cons.mpr ht)
    apply ih (h.next (Ne.symm hc)) hr

/-- Behind a first `[` a scanner reads as one that starts inside a bracket. -/
theorem Settled.next_bracket {s : Scanner} (h : s.Settled) :
  (s.next '[').Alike (start 1)
  := by
  rw [h.alike_start.next_eq]
  constructor
  · rfl
  · rfl
  · rfl
  · intro _
    rfl

/-- Only the mark itself is outermost as that mark. -/
theorem eq_of_isOutermost {s : Scanner} {mark c : Char} (h : s.isOutermost mark c = true) :
  c = mark
  := by
  simp only [isOutermost, Bool.and_eq_true, beq_iff_eq] at h
  exact h.1.2

/-- In a settled scanner a dot stands outside every bracket. -/
theorem Settled.isOutermost_dot {s : Scanner} (h : s.Settled) :
  s.isOutermost '.' '.' = true
  := by
  rw [h.alike_start.isOutermost_eq]
  rfl

/-- A dot outside every bracket leaves a sound scanner settled, as it was before. -/
theorem Sound.settled_of_isOutermost {s : Scanner} (h : s.Sound) {c : Char}
    (hc : s.isOutermost '.' c = true) :
  c = '.' ∧ s.Settled ∧ (s.next c).Settled
  := by
  simp only [isOutermost, Bool.and_eq_true, beq_iff_eq] at hc
  obtain ⟨⟨hp, rfl⟩, hd⟩ := hc
  have hs : s.Settled := by
    apply h.settled
    simp only [Scanner.isPlain, Bool.and_eq_true, Option.isNone_iff_eq_none] at hp
    have hn : s.next '.' = s.nextPlain '.' := by
      rw [Scanner.next]
      rw [hp.1]
      simp only
      split
      · simp [isBlank, blankRanges, CharRanges.has, isQuoteMark]
      · rfl
    rw [hn] at hd
    exact hd
  exact ⟨rfl, hs, hs.next (by decide)⟩

end JsonAudit.Scanner
