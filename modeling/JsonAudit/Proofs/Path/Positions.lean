import JsonAudit.Proofs.Path.Keys

/-!
# Positions are told apart by their paths

A path that is joined to another one attaches a text that begins with a dot or a bracket, and the
base can be read off the result if the path is known (`joinPath_right_cancel`).  Where keys are
components, the text of a step ends where such a text begins, so that steps are read off their path
one by one, and different positions have different paths: this is `renderPath_injective`.
-/

namespace JsonAudit

/-! ### What is attached to a base -/

/-- The text that a path adds to a base that is not empty. -/
def attachment (path : String) : String :=
  if path = "" then "" else if opensBracket path = true then path else "." ++ path

/-- To a base that is not empty a path adds its attachment. -/
theorem joinPath_of_ne_empty {base : String} (h : base ≠ "") (path : String) :
  joinPath base path = base ++ attachment path
  := by
  rw [attachment]
  split
  · rename_i hp
    rw [hp, joinPath_empty_right, String.append_empty]
  · rename_i hp
    split
    · rename_i ho
      apply joinPath_of_bracket ho
    · rename_i ho
      rw [joinPath_of_no_bracket h hp (Bool.eq_false_iff.mpr ho), String.append_assoc]

/-- The character can begin an attachment. -/
def isDelimiter (c : Char) : Bool := c == '.' || c == '['

/-- An attachment begins with a dot or a bracket, if it is not empty. -/
theorem isDelimiter_of_head_attachment (path : String) :
  ∀ c ∈ (attachment path).toList.head?, isDelimiter c = true
  := by
  intro c hc
  rw [attachment] at hc
  split at hc
  · cases hc
  · split at hc
    · rename_i ho
      have hb : path.toList.head? = some '[' := eq_of_beq ho
      rw [hb] at hc
      cases hc
      rfl
    · rw [String.toList_append] at hc
      cases hc
      rfl

/-- A path can be read off what it attaches. -/
theorem attachment_injective {path path' : String} (h : attachment path = attachment path') :
  path = path'
  := by
  have dot_ne {p q : String} (hq : opensBracket q = true) : "." ++ p ≠ q := by
    rintro rfl
    rw [opensBracket, String.toList_append] at hq
    cases hq
  rw [attachment, attachment] at h
  split at h
  · rename_i hp
    split at h
    · rename_i hp'
      rw [hp, hp']
    · split at h
      · rename_i hp' _
        exact absurd h.symm hp'
      · exact absurd h.symm (append_ne_empty (by decide) path')
  · rename_i hp
    split at h
    · rename_i ho
      split at h
      · exact absurd h hp
      · split at h
        · apply h
        · exact absurd h.symm (dot_ne ho)
    · split at h
      · exact absurd h (append_ne_empty (by decide) path)
      · split at h
        · rename_i ho'
          exact absurd h (dot_ne ho')
        · apply (String.append_right_inj ".").mp h

/-- An attachment is at least as long as its path. -/
theorem length_le_length_attachment (path : String) :
  path.length ≤ (attachment path).length
  := by
  rw [attachment]
  split
  · rename_i h
    subst h
    apply Nat.le_refl
  · split
    · apply Nat.le_refl
    · rw [String.length_append]
      apply Nat.le_add_left

/-- A base that is not empty makes a path longer. -/
theorem joinPath_ne_right {base : String} (h : base ≠ "") (path : String) :
  joinPath base path ≠ path
  := by
  intro he
  have hl := congrArg String.length he
  have ha := length_le_length_attachment path
  rw [joinPath_of_ne_empty h, String.length_append] at hl
  have hz : base.length = 0 := by omega
  apply h (String.length_eq_zero_iff.mp hz)

/-- The base can be read off a joined path if what is joined is known. -/
theorem joinPath_right_cancel {base base' path : String}
    (h : joinPath base path = joinPath base' path) :
  base = base'
  := by
  by_cases hb : base = ""
  · rw [hb, joinPath_empty_left] at h
    by_cases hb' : base' = ""
    · rw [hb, hb']
    · exact absurd h.symm (joinPath_ne_right hb' path)
  · by_cases hb' : base' = ""
    · rw [hb', joinPath_empty_left] at h
      exact absurd h (joinPath_ne_right hb path)
    · rw [joinPath_of_ne_empty hb, joinPath_of_ne_empty hb'] at h
      apply (String.append_left_inj _).mp h

/-! ### Reading the steps off a path -/

/-- Two texts of one kind of characters, each followed by nothing or by another character, are
the same if the whole is. -/
theorem append_inj_of_takeWhile {p : Char → Bool} {a b u v : List Char}
    (ha : ∀ c ∈ a, p c = true) (hb : ∀ c ∈ b, p c = true) (hu : ∀ c ∈ u.head?, p c = false)
    (hv : ∀ c ∈ v.head?, p c = false) (h : a ++ u = b ++ v) :
  a = b ∧ u = v
  := by
  have takeWhile_nil {w : List Char} (hw : ∀ c ∈ w.head?, p c = false) : w.takeWhile p = [] := by
    cases w with
    | nil => rfl
    | cons c rest => rw [List.takeWhile_cons_of_neg (Bool.eq_false_iff.mp (hw c rfl))]
  have ht := congrArg (List.takeWhile p) h
  rw [List.takeWhile_append_of_pos ha, List.takeWhile_append_of_pos hb, takeWhile_nil hu,
    takeWhile_nil hv, List.append_nil, List.append_nil] at ht
  subst ht
  exact ⟨rfl, List.append_cancel_left h⟩

/-- No character of a component can begin an attachment. -/
theorem not_isDelimiter_of_mem {name : String} (h : IsComponent name) {c : Char}
    (hc : c ∈ name.toList) :
  (!isDelimiter c) = true
  := by
  obtain ⟨-, hd, hb⟩ := h
  simp only [isDelimiter, Bool.not_eq_true', Bool.or_eq_false_iff, beq_eq_false_iff_ne]
  constructor
  · rintro rfl
    exact hd hc
  · rintro rfl
    exact hb hc

/-- What is attached to a key shows where the key ends. -/
theorem key_append_attachment {name name' : String} (hn : IsComponent name)
    (hn' : IsComponent name') {path path' : String}
    (h : name ++ attachment path = name' ++ attachment path') :
  name = name' ∧ path = path'
  := by
  have hl := congrArg String.toList h
  rw [String.toList_append, String.toList_append] at hl
  have hd (path : String) : ∀ c ∈ (attachment path).toList.head?, (!isDelimiter c) = false := by
    intro c hc
    rw [isDelimiter_of_head_attachment path c hc]
    rfl
  obtain ⟨he, ha⟩ := append_inj_of_takeWhile (fun _ => not_isDelimiter_of_mem hn)
    (fun _ => not_isDelimiter_of_mem hn') (hd path) (hd path') hl
  exact ⟨String.toList_inj.mp he, attachment_injective (String.toList_inj.mp ha)⟩

/-- What is attached to an index shows where the index ends. -/
theorem index_append_attachment {i j : Nat} {path path' : String}
    (h : (Step.index i).text ++ attachment path = (Step.index j).text ++ attachment path') :
  i = j ∧ path = path'
  := by
  have hl := congrArg String.toList h
  simp only [String.toList_append, toList_index, List.cons_append, List.append_assoc,
    List.nil_append, List.cons.injEq, true_and] at hl
  have hc (rest : List Char) : ∀ c ∈ (']' :: rest).head?, c.isDigit = false := by
    rintro c ⟨⟩
    rfl
  obtain ⟨hr, ha⟩ := append_inj_of_takeWhile (fun _ => isDigit_of_mem_repr)
    (fun _ => isDigit_of_mem_repr) (hc _) (hc _) hl
  constructor
  · rw [← digitsValue_repr i, hr, digitsValue_repr]
  · apply attachment_injective (String.toList_inj.mp (List.cons.inj ha).2)

/-- What is attached to the text of a step shows where that text ends. -/
theorem Step.text_append_attachment {step step' : Step} (hs : step.IsPlain) (hs' : step'.IsPlain)
    {path path' : String} (h : step.text ++ attachment path = step'.text ++ attachment path') :
  step = step' ∧ path = path'
  := by
  have hi : step.isIndex = step'.isIndex := by
    rw [← hs.opensBracket_append (attachment path), h, hs'.opensBracket_append]
  cases step with
  | key name =>
    cases step' with
    | key name' =>
      obtain ⟨rfl, hp⟩ := key_append_attachment hs hs' h
      exact ⟨rfl, hp⟩
    | index j => cases hi
  | index i =>
    cases step' with
    | key name' => cases hi
    | index j =>
      obtain ⟨rfl, hp⟩ := index_append_attachment h
      exact ⟨rfl, hp⟩

/-- The path of a plain step and those behind it is its text with what the rest attaches. -/
theorem renderPath_cons_eq {step : Step} (h : step.IsPlain) (rest : List Step) :
  renderPath (step :: rest) = step.text ++ attachment (renderPath rest)
  := by
  rw [renderPath_cons, joinPath_of_ne_empty h.text_ne_empty]

theorem renderPath_cons_ne_empty {step : Step} (h : step.IsPlain) (rest : List Step) :
  renderPath (step :: rest) ≠ ""
  := by
  rw [renderPath_cons_eq h]
  apply append_ne_empty h.text_ne_empty

/-- Different positions have different paths. -/
theorem renderPath_injective {steps steps' : List Step} (hs : ∀ step ∈ steps, step.IsPlain)
    (hs' : ∀ step ∈ steps', step.IsPlain) (h : renderPath steps = renderPath steps') :
  steps = steps'
  := by
  induction steps generalizing steps' with
  | nil =>
    cases steps' with
    | nil => rfl
    | cons step' rest' =>
      have hp := List.forall_mem_cons.mp hs'
      exact absurd h.symm (renderPath_cons_ne_empty hp.1 rest')
  | cons step rest ih =>
    obtain ⟨hstep, hrest⟩ := List.forall_mem_cons.mp hs
    cases steps' with
    | nil => exact absurd h (renderPath_cons_ne_empty hstep rest)
    | cons step' rest' =>
      obtain ⟨hstep', hrest'⟩ := List.forall_mem_cons.mp hs'
      rw [renderPath_cons_eq hstep, renderPath_cons_eq hstep'] at h
      obtain ⟨he, hr⟩ := Step.text_append_attachment hstep hstep' h
      rw [he, ih hrest hrest' hr]

/-! ### Positions in a document -/

namespace Location

/-- The location that the step leads to, as a property or an element of this one. -/
def child? (l : Location) : Step → Option Location
  | .key name => (l.value.child (.key name)).map (l.property name)
  | .index i => (l.value.child (.index i)).map (l.element i)

/-- The location that the steps lead to, one after the other. -/
def descend (l : Location) : List Step → Option Location
  | [] => some l
  | step :: rest => (l.child? step).bind fun child => child.descend rest

/-- A step leads to the child of the value, at the path that follows it. -/
theorem child?_eq (l : Location) (step : Step) :
  l.child? step = (l.value.child step).map fun part => ⟨step.follow l.path, part⟩
  := by
  cases step <;> rfl

/-- Steps lead to a part of the value, at the path that follows them all. -/
theorem descend_eq (l : Location) (steps : List Step) :
  l.descend steps
    = (l.value.descend steps).map fun part => ⟨steps.foldl Step.follow l.path, part⟩
  := by
  induction steps generalizing l with
  | nil => rfl
  | cons step rest ih =>
    rw [descend, child?_eq, Json.descend]
    cases l.value.child step with
    | none => rfl
    | some part => apply ih

/-- The location that steps lead to from the root is at their position. -/
theorem descend_root_iff {document : Json} {steps : List Step} {l : Location} :
  (root document).descend steps = some l ↔ l.IsAt document steps
  := by
  rw [descend_eq, Option.map_eq_some_iff]
  constructor
  · rintro ⟨part, hd, rfl⟩
    exact ⟨hd, rfl⟩
  · rintro ⟨hv, hp⟩
    obtain ⟨path, value⟩ := l
    obtain rfl : path = renderPath steps := hp
    exact ⟨value, hv, rfl⟩

/-- Locations at two positions of a document have the same path only if the positions are the
same. -/
theorem IsAt.steps_eq {document : Json} (hk : document.HasPlainKeys) {l l' : Location}
    {steps steps' : List Step} (hl : l.IsAt document steps) (hl' : l'.IsAt document steps')
    (h : l.path = l'.path) :
  steps = steps'
  := by
  rw [hl.path, hl'.path] at h
  apply renderPath_injective (hk.isPlain hl.value) (hk.isPlain hl'.value) h

/-- Locations in a document with the same path are the same. -/
theorem IsAt.eq_of_path_eq {document : Json} (hk : document.HasPlainKeys) {l l' : Location}
    {steps steps' : List Step} (hl : l.IsAt document steps) (hl' : l'.IsAt document steps')
    (h : l.path = l'.path) :
  l = l'
  := by
  obtain rfl := hl.steps_eq hk hl' h
  obtain ⟨path, value⟩ := l
  obtain ⟨path', value'⟩ := l'
  obtain rfl : path = path' := h
  obtain rfl : value = value' := Option.some.inj (hl.value.symm.trans hl'.value)
  rfl

end Location

end JsonAudit
