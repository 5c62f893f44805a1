import JsonAudit.Path.Reader
import JsonAudit.Proofs.Path.Splitting

/-!
# What a bracket holds

Reading on from inside a bracket, `closeFrom` looks for the `]` that closes the last open one.  A
text is read past without finding it exactly if no `]` in it is outermost.  A component ends no
earlier than its bracket does, so that a name and a bracket behind it are one segment: its content
says what is selected if the bracket closes at the end, and it is malformed if it never does.
-/

namespace JsonAudit

open Scanner

/-! ### Depth -/

/-- Only brackets change the depth. -/
theorem Scanner.depth_next {s : Scanner} {c : Char} (ho : c ≠ '[') (hc : c ≠ ']') :
  (s.next c).depth = s.depth
  := by
  apply next_cases (motive := fun t => t.depth = s.depth) s c
  · intro _ _
    rfl
  · intro _ _
    rfl
  · intro _ _
    rfl
  · intro _
    unfold nextPlain
    split
    · cases ho rfl
    · cases hc rfl
    · rfl
    · rfl

/-- A text without brackets changes no depth. -/
theorem Scanner.depth_run {s : Scanner} {text : List Char} (ho : '[' ∉ text) (hc : ']' ∉ text) :
  (s.run text).depth = s.depth
  := by
  induction text generalizing s with
  | nil => rfl
  | cons c rest ih =>
    obtain ⟨hco, hro⟩ := not_or.mp (mt List.mem_cons.mpr ho)
    obtain ⟨hcc, hrc⟩ := not_or.mp (mt List.mem_cons.mpr hc)
    exact (ih hro hrc).trans (depth_next (Ne.symm hco) (Ne.symm hcc))

/-- Outside quoted literals `]` closes a bracket. -/
theorem Scanner.isOutermost_bracket_iff {s : Scanner} :
  s.isOutermost ']' ']' = true ↔ s.quote = none ∧ s.depth ≤ 1
  := by
  have hb : isBlank ']' = false := by decide
  obtain ⟨depth, quote, awaiting, previous⟩ := s
  cases quote with
  | some mark => simp [isOutermost, Scanner.isPlain]
  | none =>
    cases awaiting <;> cases depth <;>
      simp [isOutermost, Scanner.isPlain, Scanner.next, nextPlain, hb, isQuoteMark]

/-- Only `]` takes the depth down. -/
theorem Scanner.eq_bracket_of_depth_next_lt {s : Scanner} {c : Char}
    (h : (s.next c).depth < s.depth) :
  s.quote = none ∧ c = ']'
  := by
  revert h
  apply next_cases (motive := fun t => t.depth < s.depth → s.quote = none ∧ c = ']') s c
  · intro _ _ h
    cases Nat.lt_irrefl _ h
  · intro _ _ h
    cases Nat.lt_irrefl _ h
  · intro _ _ h
    cases Nat.lt_irrefl _ h
  · intro hq
    unfold nextPlain
    split
    · intro h
      cases Nat.not_succ_lt_self h
    · intro _
      exact ⟨hq, rfl⟩
    · intro h
      cases Nat.lt_irrefl _ h
    · intro h
      cases Nat.lt_irrefl _ h

/-- As long as no `]` is outermost a bracket stays open. -/
theorem Scanner.depth_next_pos {s : Scanner} (hd : 0 < s.depth) {c : Char}
    (ho : ¬ s.isOutermost ']' c = true) :
  0 < (s.next c).depth
  := by
  apply Nat.pos_of_ne_zero
  intro hz
  obtain ⟨hq, rfl⟩ := eq_bracket_of_depth_next_lt (hz ▸ hd)
  apply ho
  simp [isOutermost, Scanner.isPlain, hq, hz, isQuoteMark]

/-! ### Reading on -/

/-- Scanners that read alike close a bracket at the same place. -/
theorem closeFrom_alike {s t : Scanner} (h : s.Alike t) (text : List Char) :
  closeFrom s text = closeFrom t text
  := by
  cases text with
  | nil => rfl
  | cons c rest => rw [closeFrom, closeFrom, h.isOutermost_eq, h.next_eq]

/-- Behind a text that leaves the bracket open the search goes on. -/
theorem closeFrom_append {s : Scanner} {text : List Char} (h : closeFrom s text = none)
    (rest : List Char) :
  closeFrom s (text ++ rest)
    = (closeFrom (s.run text) rest).map fun (content, after) => (text ++ content, after)
  := by
  induction text generalizing s with
  | nil =>
    symm
    apply Option.map_id'
  | cons c tail ih =>
    rw [closeFrom] at h
    split at h
    · cases h
    · rename_i ho
      have hn : closeFrom (s.next c) tail = none := Option.map_eq_none_iff.mp h
      rw [List.cons_append, closeFrom, if_neg ho, ih hn, Option.map_map]
      rfl

/-- A bracket stays open over two texts exactly if it does over one and then over the other. -/
theorem closeFrom_append_eq_none_iff {s : Scanner} {text rest : List Char} :
  closeFrom s (text ++ rest) = none
    ↔ closeFrom s text = none ∧ closeFrom (s.run text) rest = none
  := by
  induction text generalizing s with
  | nil => exact (and_iff_right rfl).symm
  | cons c tail ih =>
    rw [List.cons_append, closeFrom, closeFrom]
    split
    · simp
    · rw [Option.map_eq_none_iff, Option.map_eq_none_iff, ih]
      rfl

/-- A bracket stays open over a text without a closing one. -/
theorem closeFrom_of_not_mem {text : List Char} (h : ']' ∉ text) (s : Scanner) :
  closeFrom s text = none
  := by
  induction text generalizing s with
  | nil => rfl
  | cons c rest ih =>
    obtain ⟨hc, hr⟩ := not_or.mp (mt List.mem_cons.mpr h)
    have ho : ¬ s.isOutermost ']' c = true := by
      simp [isOutermost, Ne.symm hc]
    rw [closeFrom, if_neg ho, ih hr]
    rfl

/-- The bracket is open up to the end of its content. -/
theorem closeFrom_content {s : Scanner} {text content after : List Char}
    (h : closeFrom s text = some (content, after)) :
  closeFrom s content = none
  := by
  induction text generalizing s content with
  | nil => cases h
  | cons c rest ih =>
    rw [closeFrom] at h
    split at h
    · obtain ⟨rfl, -⟩ := Prod.mk.inj (Option.some.inj h)
      rfl
    · rename_i ho
      obtain ⟨⟨inner, tail⟩, hi, he⟩ := Option.map_eq_some_iff.mp h
      obtain ⟨rfl, rfl⟩ := Prod.mk.inj he
      rw [closeFrom, if_neg ho, ih hi]
      rfl

/-! ### Idle texts -/

/-- The character is no bracket and stands in no operator. -/
def Scanner.isIdle (c : Char) : Bool := !(c == '[' || c == ']' || c == '=' || c == '!')

theorem Scanner.beginsOperator_of_isIdle {c : Char} (h : isIdle c = true) :
  beginsOperator c = false
  := by
  simp only [isIdle, Bool.not_eq_true', Bool.or_eq_false_iff] at h
  rw [beginsOperator, h.1.2, h.2]
  rfl

/-- What is idle leaves the scanner as it was at the start. -/
theorem Scanner.Alike.next_idle {s : Scanner} {depth : Nat} (h : s.Alike (start depth))
    {c : Char} (hc : isIdle c = true) :
  (s.next c).Alike (start depth)
  := by
  rw [h.next_eq]
  show ((start depth).nextPlain c).Alike (start depth)
  unfold nextPlain
  split
  · cases hc
  · cases hc
  · cases hc
  · exact ⟨rfl, rfl, rfl, fun _ => beginsOperator_of_isIdle hc⟩

/-- Over an idle text the scanner reads on as it did before. -/
theorem Scanner.Alike.run_idle {s : Scanner} {depth : Nat} (h : s.Alike (start depth))
    {text : List Char} (ht : ∀ c ∈ text, isIdle c = true) :
  (s.run text).Alike (start depth)
  := by
  induction text generalizing s with
  | nil => exact h
  | cons c rest ih =>
    obtain ⟨hc, hr⟩ := List.forall_mem_cons.mp ht
    exact ih (h.next_idle hc) hr

theorem not_mem_idle {text : List Char} (h : ∀ c ∈ text, isIdle c = true) {c : Char}
    (hc : isIdle c = false) :
  c ∉ text
  := by
  intro hm
  rw [h c hm] at hc
  cases hc

/-- Without brackets in it a text goes up to the `]` behind it, if no quoted literal is open
there. -/
theorem closeFrom_of_quote {s : Scanner} (hd : s.depth = 1) {text : List Char} (ho : '[' ∉ text)
    (hc : ']' ∉ text) (hq : (s.run text).quote = none) (after : List Char) :
  closeFrom s (text ++ ']' :: after) = some (text, after)
  := by
  have hl : (s.run text).depth ≤ 1 := Nat.le_of_eq ((depth_run ho hc).trans hd)
  rw [closeFrom_append (closeFrom_of_not_mem hc s), closeFrom,
    if_pos (isOutermost_bracket_iff.mpr ⟨hq, hl⟩)]
  simp

/-- An idle text goes up to the `]` behind it. -/
theorem closeFrom_idle {text : List Char} (h : ∀ c ∈ text, isIdle c = true)
    (after : List Char) :
  closeFrom (start 1) (text ++ ']' :: after) = some (text, after)
  := closeFrom_of_quote rfl (not_mem_idle h rfl) (not_mem_idle h rfl)
    ((Alike.refl _).run_idle h).quote after

/-! ### One segment -/

/-- No dot separates before the bracket is closed. -/
theorem piecesFrom_of_inside {s : Scanner} (hd : 0 < s.depth) {text : List Char}
    (h : ∀ content after, closeFrom s text = some (content, after) → after = []) :
  piecesFrom s text = [text]
  := by
  induction text generalizing s with
  | nil => rfl
  | cons c rest ih =>
    rw [closeFrom] at h
    by_cases ho : s.isOutermost ']' c = true
    · rw [if_pos ho] at h
      obtain rfl := h [] rest rfl
      have hc : c = ']' := eq_of_isOutermost ho
      have hn : ¬ s.isOutermost '.' c = true := by
        rw [hc]
        simp [isOutermost]
      rw [piecesFrom, if_neg hn]
      rfl
    · rw [if_neg ho] at h
      have hp : 0 < (s.next c).depth := depth_next_pos hd ho
      have hn : ¬ s.isOutermost '.' c = true := by
        intro hn
        simp only [isOutermost, Bool.and_eq_true, beq_iff_eq] at hn
        exact Nat.ne_of_gt hp hn.2
      rw [piecesFrom, if_neg hn, ih hp, List.modifyHead_cons]
      intro content after hc
      apply h (c :: content) after
      rw [hc]
      rfl

/-- A predicate is read between brackets that close, from a condition. -/
theorem Indexer.exists_condition_of_ofBracket {bracket : Bracket} {p : Predicate}
    (h : ofBracket bracket = .predicate p) :
  ∃ content condition, bracket = .closed content
    ∧ readCondition (trim content) = some condition ∧ p = .ofCondition condition
  := by
  cases bracket with
  | unbalanced rest => cases h
  | closed content =>
    rw [ofBracket, ofContent] at h
    cases hc : readCondition (trim content) with
    | some condition =>
      rw [hc] at h
      exact ⟨content, condition, rfl, hc, (Indexer.predicate.inj h).symm⟩
    | none =>
      rw [hc] at h
      cases hi : readIndex (trim content) with
      | some i =>
        rw [hi] at h
        cases h
      | none =>
        rw [hi] at h
        cases h

/-- A name without a dot and a bracket is a segment of its own. -/
theorem parse_name {name : List Char} (hn : name ≠ []) (hd : '.' ∉ name) (hb : '[' ∉ name) :
  parse name = [.mk (String.ofList name) none]
  := by
  rw [parse_eq_map, components_of_no_dot hd hn, List.map_singleton, Segment.ofComponent,
    splitBracket_of_simple hb]
  rfl

/-- A name and a bracket that is not closed before the end are one segment. -/
theorem parse_bracket {name rest : List Char} (hd : '.' ∉ name) (hb : '[' ∉ name)
    (h : ∀ content after, closeFrom (start 1) rest = some (content, after) → after = []) :
  parse (name ++ '[' :: rest)
    = [.mk (String.ofList name) (some (.ofBracket (.ofRest rest)))]
  := by
  have hs : ((start 0).run (name ++ ['['])).Alike (start 1) := by
    rw [run_append]
    apply (settled_start.run hb).next_bracket
  have hp : piecesFrom ((start 0).run (name ++ ['['])) rest = [rest] := by
    rw [piecesFrom_alike hs]
    apply piecesFrom_of_inside Nat.one_pos h
  have hn : '.' ∉ name ++ ['['] := by
    simp [hd]
  have hc : components (name ++ '[' :: rest) = [name ++ '[' :: rest] := by
    rw [List.append_cons, components_append_of_no_dot hn (by simp) hp]
    rfl
  rw [parse_eq_map, hc, List.map_singleton, Segment.ofComponent, splitBracket_of_bracket hb]
  rfl

/-- A bracket that closes at the end says what its content says. -/
theorem parse_closed {name content : List Char} (hd : '.' ∉ name) (hb : '[' ∉ name)
    (h : closeFrom (start 1) (content ++ [']']) = some (content, [])) :
  parse (name ++ '[' :: (content ++ [']']))
    = [.mk (String.ofList name) (some (.ofContent content))]
  := by
  rw [parse_bracket hd hb, Bracket.ofRest, h]
  · rfl
  · intro inner after hi
    cases h.symm.trans hi
    rfl

/-- A bracket that never closes is malformed. -/
theorem parse_unclosed {name rest : List Char} (hd : '.' ∉ name) (hb : '[' ∉ name)
    (h : closeFrom (start 1) rest = none) :
  parse (name ++ '[' :: rest)
    = [.mk (String.ofList name) (some (.malformed (String.ofList rest)))]
  := by
  rw [parse_bracket hd hb, Bracket.ofRest, h]
  · rfl
  · intro inner after hi
    cases h.symm.trans hi

/-- The scanner is settled behind a bracket that is closed. -/
theorem settled_closed {name content : List Char} (hb : '[' ∉ name)
    (h : closeFrom (start 1) (content ++ [']']) = some (content, [])) :
  ((start 0).run (name ++ '[' :: (content ++ [']']))).Settled
  := by
  have hs : ((start 0).run (name ++ '[' :: (content ++ [']']))).Sound := (sound_start 0).run _
  have ha := (settled_start.run hb).next_bracket.run (content ++ [']'])
  apply hs.settled
  rw [run_append]
  exact ha.depth.trans (depth_of_closeFrom h)

end JsonAudit
