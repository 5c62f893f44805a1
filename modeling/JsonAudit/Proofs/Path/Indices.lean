import JsonAudit.Proofs.Path.Brackets
import JsonAudit.Proofs.Text.Trimming

/-!
# Indices in brackets

The decimal digits of an index are read back as the index.  Between brackets they are scanned
without a change, so that `[i]` is a component of its own, and with another bracket after it the
component is unbalanced.
-/

namespace JsonAudit

open Scanner

/-! ### Digits -/

/-- A number is written in digits. -/
theorem isDigit_of_mem_repr {i : Nat} {c : Char} (h : c ∈ (Nat.repr i).toList) :
  c.isDigit = true
  := by
  rw [Nat.toList_repr] at h
  apply Nat.isDigit_of_mem_toDigits (by decide) (by decide) h

theorem repr_ne_nil (i : Nat) :
  (Nat.repr i).toList ≠ []
  := by
  rw [Nat.toList_repr]
  apply Nat.toDigits_ne_nil

/-- The digits of a number have its value. -/
theorem digitsValue_repr (i : Nat) :
  digitsValue (Nat.repr i).toList = i
  := by
  rw [Nat.toList_repr]
  apply Nat.ofDigitChars_ten_toDigits

/-! ### Reading -/

/-- A text of digits is no condition. -/
theorem readCondition_of_digit {c : Char} (h : c.isDigit = true) (rest : List Char) :
  readCondition (c :: rest) = none
  := by
  have hq : c ≠ '?' := by
    rintro rfl
    cases h
  have ha : c ≠ '@' := by
    rintro rfl
    cases h
  have hu : unwrap (c :: rest) = some (c :: rest) := by
    unfold unwrap
    split
    · rename_i he
      cases hq (List.cons.inj he).1
    · rfl
  rw [readCondition]
  rw [hu]
  split
  · rename_i he
    cases ha (List.cons.inj (Option.some.inj he)).1
  · rfl

/-- A number up to the limit is read as the index it is. -/
theorem readIndex_repr {i : Nat} (h : i ≤ indexLimit) :
  readIndex (Nat.repr i).toList = some i
  := by
  have ha : (Nat.repr i).toList.all Char.isDigit = true := by
    rw [List.all_eq_true]
    intro c hc
    apply isDigit_of_mem_repr hc
  have he : (Nat.repr i).toList.isEmpty = false := List.isEmpty_eq_false_iff.mpr (repr_ne_nil i)
  have hv := digitsValue_repr i
  unfold readIndex
  split
  · rename_i rest hr
    rw [hr, List.all_cons] at ha
    cases ha
  · simp only [he, ha, hv, decide_eq_true h]
    rfl

/-- Between brackets the digits of an index stand for the index. -/
theorem ofContent_repr {i : Nat} (h : i ≤ indexLimit) :
  Indexer.ofContent (Nat.repr i).toList = .index i
  := by
  have ht : trim (Nat.repr i).toList = (Nat.repr i).toList := by
    apply trim_of_no_blank
    intro c hc
    apply isBlank_of_isDigit (isDigit_of_mem_repr hc)
  have hc : readCondition (Nat.repr i).toList = none := by
    obtain ⟨c, rest, hr⟩ := List.exists_cons_of_ne_nil (repr_ne_nil i)
    rw [hr]
    apply readCondition_of_digit (isDigit_of_mem_repr (hr ▸ List.mem_cons_self))
  rw [Indexer.ofContent, ht, hc]
  simp only [readIndex_repr h]

/-! ### Scanning -/

/-- A digit changes nothing about the scanner but what it saw last. -/
theorem isIdle_of_isDigit {c : Char} (h : c.isDigit = true) :
  isIdle c = true
  := by
  simp only [isIdle, Bool.not_eq_true', Bool.or_eq_false_iff, beq_eq_false_iff_ne]
  refine ⟨⟨⟨?_, ?_⟩, ?_⟩, ?_⟩
  all_goals
    rintro rfl
    cases h

/-- A bracket with a number in it closes behind the number. -/
theorem closeFrom_repr (i : Nat) (after : List Char) :
  closeFrom (start 1) ((Nat.repr i).toList ++ ']' :: after) = some ((Nat.repr i).toList, after)
  := closeFrom_idle (fun _ hc => isIdle_of_isDigit (isDigit_of_mem_repr hc)) after

/-- An index in brackets leaves the scanner settled. -/
theorem settled_index (i : Nat) :
  ((start 0).run ('[' :: ((Nat.repr i).toList ++ [']']))).Settled
  := settled_closed List.not_mem_nil (closeFrom_repr i [])

/-- No dot stands in an index. -/
theorem dot_not_mem_index (i : Nat) :
  '.' ∉ '[' :: ((Nat.repr i).toList ++ [']'])
  := by
  intro h
  rcases List.mem_cons.mp h with h | h
  · cases h
  · rcases List.mem_append.mp h with h | h
    · cases isDigit_of_mem_repr h
    · cases List.mem_singleton.mp h

/-- An index is a bracket without a name, which is not balanced if something stands behind it. -/
theorem splitBracket_index (i : Nat) (after : List Char) :
  splitBracket ('[' :: ((Nat.repr i).toList ++ ']' :: after))
    = ([], some (if after = [] then .closed (Nat.repr i).toList
        else .unbalanced ((Nat.repr i).toList ++ ']' :: after)))
  := by
  have hb : Bracket.ofRest ((Nat.repr i).toList ++ ']' :: after)
      = if after = [] then .closed (Nat.repr i).toList
        else .unbalanced ((Nat.repr i).toList ++ ']' :: after) := by
    rw [Bracket.ofRest, closeFrom_repr]
    cases after <;> rfl
  rw [← hb]
  exact splitBracket_of_bracket List.not_mem_nil _

/-- An index in brackets is read as a segment without a property. -/
theorem parse_index {i : Nat} (h : i ≤ indexLimit) :
  parse ('[' :: ((Nat.repr i).toList ++ [']'])) = [.mk "" (some (.index i))]
  := by
  have hp := parse_closed List.not_mem_nil List.not_mem_nil (closeFrom_repr i [])
  rw [ofContent_repr h] at hp
  exact hp

end JsonAudit
