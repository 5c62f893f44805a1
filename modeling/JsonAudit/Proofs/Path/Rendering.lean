import JsonAudit.Path.Step

/-!
# Paths of positions

Joining paths is associative, with the empty path on both sides of it as the unit.  A position is
the list of steps that leads to it, and `renderPath` writes it by joining one step after the
other: the path of `a ++ b` is the path of `a` joined with that of `b`.  Where no key is empty or
begins with `[`, it is the canonical path `pathText` of the steps.
-/

namespace JsonAudit

/-! ### Joining -/

/-- The path begins with a bracket. -/
def opensBracket (path : String) : Bool := path.toList.head? == some '['

/-- Behind no path a path is as it was. -/
theorem joinPath_empty_left (path : String) :
  joinPath "" path = path
  := by
  rw [joinPath, if_pos rfl]

/-- A path to which nothing is joined is as it was. -/
theorem joinPath_empty_right (path : String) :
  joinPath path "" = path
  := by
  rw [joinPath]
  split
  · rename_i h
    rw [h]
  · rw [if_pos rfl]

/-- A path that begins with a bracket is not empty. -/
theorem ne_empty_of_opensBracket {path : String} (h : opensBracket path = true) :
  path ≠ ""
  := by
  rintro rfl
  cases h

theorem toList_of_opensBracket {path : String} (h : opensBracket path = true) :
  ∃ rest, path.toList = '[' :: rest
  := List.head?_eq_some_iff.mp (eq_of_beq h)

/-- A path without a bracket does not begin with one. -/
theorem opensBracket_of_simple {path : String} (h : '[' ∉ path.toList) :
  opensBracket path = false
  := by
  apply Bool.eq_false_iff.mpr
  intro ho
  obtain ⟨rest, ht⟩ := toList_of_opensBracket ho
  rw [ht] at h
  apply h List.mem_cons_self

/-- A path that begins with a bracket is joined directly. -/
theorem joinPath_of_bracket {path : String} (h : opensBracket path = true) (base : String) :
  joinPath base path = base ++ path
  := by
  have hh : path.toList.head? = some '[' := eq_of_beq h
  rw [joinPath, if_neg (ne_empty_of_opensBracket h), if_pos hh]
  split
  · rename_i hb
    rw [hb, String.empty_append]
  · rfl

/-- Every other path is joined by a dot. -/
theorem joinPath_of_no_bracket {base path : String} (hb : base ≠ "") (hp : path ≠ "")
    (h : opensBracket path = false) :
  joinPath base path = base ++ "." ++ path
  := by
  have hh : path.toList.head? ≠ some '[' := by
    intro he
    rw [opensBracket, he] at h
    cases h
  rw [joinPath, if_neg hb, if_neg hp, if_neg hh]

/-- The beginning of a path decides whether it begins with a bracket. -/
theorem opensBracket_append {path : String} (h : path ≠ "") (rest : String) :
  opensBracket (path ++ rest) = opensBracket path
  := by
  rw [opensBracket, opensBracket, String.toList_append]
  cases hp : path.toList with
  | nil => cases h (String.toList_eq_nil_iff.mp hp)
  | cons c tail => rfl

theorem append_ne_empty {path : String} (h : path ≠ "") (rest : String) :
  path ++ rest ≠ ""
  := by
  intro he
  apply h (String.append_eq_empty_iff.mp he).1

/-- What is joined to a path leaves its beginning as it is. -/
theorem exists_joinPath_eq_append (base path : String) :
  base = "" ∨ ∃ rest, joinPath base path = base ++ rest
  := by
  by_cases hb : base = ""
  · exact .inl hb
  right
  by_cases hp : path = ""
  · refine ⟨"", ?_⟩
    rw [hp, joinPath_empty_right, String.append_empty]
  cases h : opensBracket path with
  | true => exact ⟨path, joinPath_of_bracket h base⟩
  | false =>
    refine ⟨"." ++ path, ?_⟩
    rw [joinPath_of_no_bracket hb hp h, String.append_assoc]

/-- Of three paths it does not matter which two are joined first. -/
theorem joinPath_assoc (a b c : String) :
  joinPath (joinPath a b) c = joinPath a (joinPath b c)
  := by
  by_cases ha : a = ""
  · rw [ha, joinPath_empty_left, joinPath_empty_left]
  by_cases hb : b = ""
  · rw [hb, joinPath_empty_right, joinPath_empty_left]
  by_cases hc : c = ""
  · rw [hc, joinPath_empty_right, joinPath_empty_right]
  have hab : joinPath a b ≠ "" := by
    obtain rfl | ⟨rest, h⟩ := exists_joinPath_eq_append a b
    · cases ha rfl
    · rw [h]
      apply append_ne_empty ha
  obtain ⟨rest, hbc⟩ := (exists_joinPath_eq_append b c).resolve_left hb
  have hne : joinPath b c ≠ "" := by
    rw [hbc]
    apply append_ne_empty hb
  have ho : opensBracket (joinPath b c) = opensBracket b := by
    rw [hbc, opensBracket_append hb]
  cases hob : opensBracket b with
  | true =>
    rw [joinPath_of_bracket (ho.trans hob), joinPath_of_bracket hob]
    cases hoc : opensBracket c with
    | true => rw [joinPath_of_bracket hoc, joinPath_of_bracket hoc, String.append_assoc]
    | false =>
      rw [joinPath_of_no_bracket (append_ne_empty ha b) hc hoc, joinPath_of_no_bracket hb hc hoc]
      simp only [String.append_assoc]
  | false =>
    rw [joinPath_of_no_bracket ha hne (ho.trans hob), joinPath_of_no_bracket ha hb hob]
    cases hoc : opensBracket c with
    | true => rw [joinPath_of_bracket hoc, joinPath_of_bracket hoc, String.append_assoc]
    | false =>
      rw [joinPath_of_no_bracket _ hc hoc, joinPath_of_no_bracket hb hc hoc]
      · simp only [String.append_assoc]
      · rw [String.append_assoc]
        apply append_ne_empty ha

/-! ### Rendering -/

/-- A step as it stands in a path. -/
def Step.text : Step → String
  | key name => name
  | index i => "[" ++ Nat.repr i ++ "]"

/-- The path with a step after it: a key is joined, an index appended in brackets. -/
def Step.follow (path : String) : Step → String
  | key name => joinPath path name
  | index i => path ++ "[" ++ Nat.repr i ++ "]"

/-- The path of the position at the end of the steps. -/
def renderPath (steps : List Step) : String := steps.foldl Step.follow ""

/-- The text of an index begins with a bracket. -/
theorem Step.opensBracket_index (i : Nat) :
  opensBracket (index i).text = true
  := by
  rw [text, opensBracket, String.toList_append, String.toList_append]
  rfl

/-- A step is followed by joining its text to the path. -/
theorem Step.follow_eq_joinPath (path : String) (step : Step) :
  step.follow path = joinPath path step.text
  := by
  cases step with
  | key name => rfl
  | index i =>
    rw [joinPath_of_bracket (Step.opensBracket_index i), Step.follow, Step.text]
    simp only [String.append_assoc]

/-- Steps are followed by joining their path. -/
theorem foldl_follow (path : String) (steps : List Step) :
  steps.foldl Step.follow path = joinPath path (renderPath steps)
  := by
  induction steps generalizing path with
  | nil =>
    symm
    apply joinPath_empty_right
  | cons step rest ih =>
    rw [renderPath, List.foldl_cons, List.foldl_cons, ih, ih (Step.follow "" step),
      Step.follow_eq_joinPath, Step.follow_eq_joinPath, joinPath_empty_left, joinPath_assoc]

/-- The path of steps one after the other is their paths joined. -/
theorem renderPath_append (a b : List Step) :
  renderPath (a ++ b) = joinPath (renderPath a) (renderPath b)
  := by
  rw [renderPath, List.foldl_append]
  apply foldl_follow

/-- The path of steps is the text of the first joined with the path of the rest. -/
theorem renderPath_cons (step : Step) (rest : List Step) :
  renderPath (step :: rest) = joinPath step.text (renderPath rest)
  := by
  rw [renderPath, List.foldl_cons, foldl_follow, Step.follow_eq_joinPath, joinPath_empty_left]

/-- The step is joined to every path as the component of its own that it is in a walk. -/
def Step.Joins : Step → Prop
  | key name => name ≠ "" ∧ opensBracket name = false
  | index _ => True

/-- A step that joins extends a canonical path just as a location follows it. -/
theorem Step.extend_eq_follow {step : Step} (h : step.Joins) (path : String) :
  step.extend path = step.follow path
  := by
  cases step with
  | key name =>
    rw [Step.extend, Step.follow]
    split
    · rename_i hp
      rw [hp, joinPath_empty_left]
    · rename_i hp
      rw [joinPath_of_no_bracket hp h.1 h.2]
  | index i => rfl

/-- The canonical path of steps that join is their path as locations follow them. -/
theorem pathText_eq_renderPath {steps : List Step} (h : ∀ step ∈ steps, step.Joins) :
  pathText steps = renderPath steps
  := by
  suffices ∀ path, extendPath path steps = steps.foldl Step.follow path from this ""
  induction steps with
  | nil =>
    intro path
    rfl
  | cons step rest ih =>
    intro path
    obtain ⟨hs, hr⟩ := List.forall_mem_cons.mp h
    rw [extendPath, List.foldl_cons, List.foldl_cons, Step.extend_eq_follow hs]
    apply ih hr

end JsonAudit
