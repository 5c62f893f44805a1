import JsonAudit.Text.Blank

/-!
# Trimming

`trim` leaves a text as it is if neither end of it is blank, and blanks put around a text make no
difference to it.  Every text is its trimmed form with blanks around it.
-/

namespace JsonAudit

/-! ### Characters -/

/-- From `0` to `z` no character is blank. -/
theorem isBlank_of_between {c : Char} (hl : 48 ≤ c.toNat) (hu : c.toNat ≤ 122) :
  isBlank c = false
  := by
  have hd : ∀ range ∈ blankRanges, range.2 < 48 ∨ 122 < range.1 := by decide
  rw [isBlank, CharRanges.has, List.any_eq_false]
  intro range hr
  rw [Bool.and_eq_true, decide_eq_true_eq, decide_eq_true_eq]
  have := hd range hr
  omega

theorem isBlank_of_isDigit {c : Char} (h : c.isDigit = true) :
  isBlank c = false
  := by
  simp only [Char.isDigit, Bool.and_eq_true, decide_eq_true_eq] at h
  have hl : 48 ≤ c.toNat := h.1
  have hu : c.toNat ≤ 57 := h.2
  apply isBlank_of_between hl
  omega

theorem isBlank_of_isAlphanum {c : Char} (h : c.isAlphanum = true) :
  isBlank c = false
  := by
  have hc : (c.isUpper || c.isLower || c.isDigit) = true := h
  rw [Bool.or_eq_true, Bool.or_eq_true] at hc
  rcases hc with (hu | hl) | hd
  · have hb : 65 ≤ c.toNat ∧ c.toNat ≤ 90 := of_decide_eq_true hu
    apply isBlank_of_between <;> omega
  · have hb : (decide (97 ≤ c.toNat) && decide (c.toNat ≤ 122)) = true := hl
    rw [Bool.and_eq_true, decide_eq_true_eq, decide_eq_true_eq] at hb
    apply isBlank_of_between <;> omega
  · exact isBlank_of_isDigit hd

/-! ### Ends of a text -/

theorem trimStart_cons {c : Char} (h : isBlank c = false) (rest : List Char) :
  trimStart (c :: rest) = c :: rest
  := by
  rw [trimStart, List.dropWhile_cons, h, if_neg nofun]

/-- A text that does not begin with a blank has no blanks to lose there. -/
theorem trimStart_of_head {text : List Char} (h : text.head?.any isBlank = false) :
  trimStart text = text
  := by
  cases text with
  | nil => rfl
  | cons c rest => apply trimStart_cons h

/-- A text that does not end in a blank has no blanks to lose there. -/
theorem trimEnd_of_getLast {text : List Char} (h : text.getLast?.any isBlank = false) :
  trimEnd text = text
  := by
  rw [← List.head?_reverse] at h
  rw [trimEnd, trimStart_of_head h, List.reverse_reverse]

/-- A text with no blank at its ends. -/
theorem trim_of_ends {text : List Char} (hs : text.head?.any isBlank = false)
    (he : text.getLast?.any isBlank = false) :
  trim text = text
  := by
  rw [trim, trimStart_of_head hs, trimEnd_of_getLast he]

theorem any_eq_false_of_mem {p : Char → Bool} {text : List Char} (h : ∀ c ∈ text, p c = false)
    {found : Option Char} (hf : ∀ c, found = some c → c ∈ text) :
  found.any p = false
  := by
  cases found with
  | none => rfl
  | some c => apply h c (hf c rfl)

/-- A text without blanks is trimmed already. -/
theorem trim_of_no_blank {text : List Char} (h : ∀ c ∈ text, isBlank c = false) :
  trim text = text
  := trim_of_ends (any_eq_false_of_mem h fun _ => List.mem_of_head?)
    (any_eq_false_of_mem h fun _ => List.mem_of_getLast?)

/-! ### Blanks around a text -/

/-- Blanks before a text are trimmed away with its own. -/
theorem trimStart_append {blanks : List Char} (h : allBlank blanks = true) (text : List Char) :
  trimStart (blanks ++ text) = trimStart text
  := List.dropWhile_append_of_pos (List.all_eq_true.mp h)

theorem trimStart_eq_nil {blanks : List Char} (h : allBlank blanks = true) :
  trimStart blanks = []
  := by
  rw [← List.append_nil blanks, trimStart_append h]
  rfl

/-- Blanks behind a text are trimmed away with its own. -/
theorem trimEnd_append {blanks : List Char} (h : allBlank blanks = true) (text : List Char) :
  trimEnd (text ++ blanks) = trimEnd text
  := by
  have hr : allBlank blanks.reverse = true := by rwa [allBlank, List.all_reverse]
  rw [trimEnd, List.reverse_append, trimStart_append hr, trimEnd]

/-- Blanks around a text make no difference to its trimmed form. -/
theorem trim_blanks {before after : List Char} (hb : allBlank before = true)
    (ha : allBlank after = true) (text : List Char) :
  trim (before ++ (text ++ after)) = trim text
  := by
  rw [trim, trimStart_append hb, trimStart, List.dropWhile_append]
  split
  · rename_i he
    have hn : trimStart text = [] := List.isEmpty_iff.mp he
    have hz : List.dropWhile isBlank after = [] := trimStart_eq_nil ha
    rw [trim, hn, hz]
  · rw [trimEnd_append ha, trim, trimStart]

/-- Blanks are all that a text loses at its beginning. -/
theorem exists_trimStart (text : List Char) :
  ∃ blanks, allBlank blanks = true ∧ text = blanks ++ trimStart text
  := ⟨text.takeWhile isBlank, List.all_takeWhile, List.takeWhile_append_dropWhile.symm⟩

/-- Blanks are all that a text loses at its end. -/
theorem exists_trimEnd (text : List Char) :
  ∃ blanks, allBlank blanks = true ∧ text = trimEnd text ++ blanks
  := by
  obtain ⟨blanks, hb, ht⟩ := exists_trimStart text.reverse
  refine ⟨blanks.reverse, ?_, ?_⟩
  · rwa [allBlank, List.all_reverse]
  · rw [trimEnd, ← List.reverse_append, ← ht, List.reverse_reverse]

/-- A text is its trimmed form with blanks around it. -/
theorem exists_trim (text : List Char) :
  ∃ before after, allBlank before = true ∧ allBlank after = true
    ∧ text = before ++ (trim text ++ after)
  := by
  obtain ⟨before, hb, ht⟩ := exists_trimStart text
  obtain ⟨after, ha, hi⟩ := exists_trimEnd (trimStart text)
  refine ⟨before, after, hb, ha, ?_⟩
  rw [trim, ← hi, ← ht]

end JsonAudit
