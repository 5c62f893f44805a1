import JsonAudit.Proofs.Path.Printing
import Mathlib.Data.String.Basic

/-!
# Bounds by the size of a path

Sizes are in bytes of UTF-8.  The components of a path are disjoint parts of it, and a predicate
takes seven bytes of its component besides its path: two brackets, `@.`, an operator and a literal.
So a path holds no more predicates than a seventh of its bytes, and they do not stand deeper in each
other than that.  `Reading` is one step of reading a path, and `Reading.Calls` says which steps it
takes in turn; no chain of them is longer than the size of the path allows.
-/

namespace JsonAudit

open Scanner String

/-! ### Sizes -/

/-- Trimming does not add bytes. -/
theorem utf8Len_trim_le (text : List Char) :
  utf8Len (trim text) ≤ utf8Len text
  := by
  obtain ⟨before, after, -, -, ht⟩ := exists_trim text
  have hs := congrArg utf8Len ht
  rw [utf8Len_append, utf8Len_append] at hs
  omega

theorem utf8Len_pos {text : List Char} (h : text ≠ []) :
  0 < utf8Len text
  := Nat.pos_of_ne_zero (mt utf8Len_eq_zero.mp h)

/-- What is appended has bytes exactly if it is not empty. -/
theorem utf8Len_lt_append_iff {before text : List Char} :
  utf8Len before < utf8Len (before ++ text) ↔ text ≠ []
  := by
  rw [utf8Len_append, Nat.lt_add_right_iff_pos, Nat.pos_iff_ne_zero, ne_eq, utf8Len_eq_zero]

theorem utf8Len_concat (text : List Char) (c : Char) :
  utf8Len (text ++ [c]) = utf8Len text + c.utf8Size
  := by
  rw [utf8Len_append, utf8Len_cons, utf8Len_nil, Nat.zero_add]

/-- The path of a condition leaves five bytes for `@.`, an operator and a literal. -/
theorem utf8Len_property_add_five_le {text : List Char} {condition : Condition}
    (h : readCondition text = some condition) :
  utf8Len condition.property + 5 ≤ utf8Len text
  := by
  obtain ⟨before, after, hu, -, -, hp, -, -, hn, -⟩ := readCondition_eq_some h
  obtain ⟨opening, ending, ht, -⟩ := exists_of_unwrap hu
  have hbefore := utf8Len_trim_le before
  have hafter := Nat.lt_of_lt_of_le (utf8Len_pos hn) (utf8Len_trim_le after)
  have hat := Char.utf8Size_pos '@'
  have hdot := Char.utf8Size_pos '.'
  have hfirst := Char.utf8Size_pos condition.operator.firstChar
  have hequal := Char.utf8Size_pos '='
  rw [hp, ht]
  simp only [utf8Len_append, utf8Len_cons]
  omega

/-- The content of a bracket that closes leaves two bytes for the brackets. -/
theorem utf8Len_content_add_two_le {component content : List Char}
    (h : (splitBracket component).2 = some (.closed content)) :
  utf8Len content + 2 ≤ utf8Len component
  := by
  by_cases hm : '[' ∈ component
  · obtain ⟨name, rest, rfl, hb⟩ := List.eq_append_cons_of_mem hm
    rw [splitBracket_of_bracket hb] at h
    rw [← append_eq_of_closeFrom (closeFrom_of_ofRest (Option.some.inj h))]
    have hopening := Char.utf8Size_pos '['
    have hclosing := Char.utf8Size_pos ']'
    simp only [utf8Len_append, utf8Len_cons]
    omega
  · rw [splitBracket_of_simple hm] at h
    cases h

/-! ### Disjoint components -/

/-- The pieces of a text are disjoint, in its order. -/
theorem flatten_piecesFrom_sublist (s : Scanner) (text : List Char) :
  (piecesFrom s text).flatten.Sublist text
  := by
  induction text generalizing s with
  | nil => exact .slnil
  | cons c rest ih =>
    have hr := ih (s.next c)
    rw [piecesFrom]
    split
    · exact .cons c hr
    · cases hp : piecesFrom (s.next c) rest with
      | nil => exact List.nil_sublist _
      | cons first others =>
        rw [hp] at hr
        exact hr.cons_cons c

/-- The components of a path are parts of it that do not meet. -/
theorem flatten_components_sublist (path : List Char) :
  (components path).flatten.Sublist path
  := by
  rw [components, List.flatten_filter_not_isEmpty]
  apply flatten_piecesFrom_sublist

/-- A component has no more bytes than its path. -/
theorem utf8Len_le_of_mem_components {path component : List Char}
    (h : component ∈ components path) :
  utf8Len component ≤ utf8Len path
  := utf8Len_le_of_sublist ((List.sublist_flatten_of_mem h).trans (flatten_components_sublist path))

/-! ### The steps of reading -/

/-- A step of reading a path, with the text that it reads. -/
inductive Reading where
  /-- A path, which may be that of a condition. -/
  | path (text : List Char)
  /-- A component of a path. -/
  | component (text : List Char)
  /-- What stands between the brackets of a component. -/
  | content (text : List Char)
  /-- What may be a condition. -/
  | condition (text : List Char)

/-- The first step takes the second in turn. -/
inductive Reading.Calls : Reading → Reading → Prop where
  | component {text component : List Char} :
    component ∈ components text → Calls (.path text) (.component component)
  | content {text content : List Char} :
    (splitBracket text).2 = some (.closed content) → Calls (.component text) (.content content)
  | condition (text : List Char) : Calls (.content text) (.condition (trim text))
  | path {text : List Char} {condition : Condition} :
    readCondition text = some condition → Calls (.condition text) (.path condition.property)

/-! ### Predicates -/

/-- The predicate in a component is read by the steps below it: the last of them reads its path. -/
theorem Segment.calls_of_predicate {component : List Char} {p : Predicate}
    (h : (ofComponent component).indexer = some (.predicate p)) :
  ∃ content, (Reading.component component).Calls (.content content)
    ∧ (Reading.condition (trim content)).Calls (.path p.property.toList)
    ∧ p.segments = parse p.property.toList
  := by
  obtain ⟨bracket, hb, hi⟩ := Option.map_eq_some_iff.mp h
  obtain ⟨content, condition, rfl, hc, rfl⟩ := Indexer.exists_condition_of_ofBracket hi
  have hl : (Predicate.ofCondition condition).property.toList = condition.property :=
    String.toList_ofList
  rw [hl]
  exact ⟨content, .content hb, .path hc, rfl⟩

/-- The path of a predicate is seven bytes shorter than the component. -/
theorem Segment.utf8Len_property_add_seven_le {component : List Char} {p : Predicate}
    (h : (ofComponent component).indexer = some (.predicate p)) :
  utf8Len p.property.toList + 7 ≤ utf8Len component
  := by
  obtain ⟨content, hcontent, hpath, -⟩ := calls_of_predicate h
  generalize p.property.toList = property at hpath ⊢
  cases hcontent with
  | content hb =>
    cases hpath with
    | path hc =>
      have hproperty := utf8Len_property_add_five_le hc
      have htrim := utf8Len_trim_le content
      have hbrackets := utf8Len_content_add_two_le hb
      omega

/-- If every component has bytes enough for its predicates, so has the text that they make up. -/
theorem seven_mul_predicateCountList_le {texts : List (List Char)}
    (h : ∀ text ∈ texts, 7 * (Segment.ofComponent text).predicateCount ≤ utf8Len text) :
  7 * Segment.predicateCountList (texts.map Segment.ofComponent) ≤ utf8Len texts.flatten
  := by
  induction texts with
  | nil => exact Nat.le_refl 0
  | cons text rest ih =>
    obtain ⟨ht, hr⟩ := List.forall_mem_cons.mp h
    have hi := ih hr
    rw [List.map_cons, Segment.predicateCountList, List.flatten_cons, utf8Len_append]
    omega

/-- The predicates in a segment are its own one and those in the path of that. -/
theorem Segment.predicateCount_cases (segment : Segment) :
  segment.predicateCount = 0
    ∨ ∃ p, segment.indexer = some (.predicate p)
      ∧ segment.predicateCount = predicateCountList p.segments + 1
  := by
  obtain ⟨name, _ | indexer⟩ := segment
  · left
    rw [predicateCount]
  · rw [predicateCount]
    cases indexer with
    | index i =>
      left
      rw [Indexer.predicateCount]
    | malformed raw =>
      left
      rw [Indexer.predicateCount]
    | predicate p =>
      right
      refine ⟨p, rfl, ?_⟩
      obtain ⟨property, segments, operator, literal⟩ := p
      rw [Indexer.predicateCount, Predicate.predicateCount, Predicate.segments]

/-- A path has seven bytes for each of its predicates, at every level: the segments in a predicate
are those of its path, which is a shorter one. -/
theorem seven_mul_predicateCount_parse_le (path : List Char) :
  7 * Segment.predicateCountList (parse path) ≤ utf8Len path
  := by
  have hp := utf8Len_le_of_sublist (flatten_components_sublist path)
  rw [parse_eq_map]
  refine Nat.le_trans (seven_mul_predicateCountList_le ?_) hp
  intro component hc
  have hl := utf8Len_le_of_mem_components hc
  rcases (Segment.ofComponent component).predicateCount_cases with hz | ⟨p, hi, hn⟩
  · omega
  · obtain ⟨-, -, -, hr⟩ := Segment.calls_of_predicate hi
    have hs := Segment.utf8Len_property_add_seven_le hi
    have ih := seven_mul_predicateCount_parse_le p.property.toList
    rw [hn, hr]
    omega
termination_by utf8Len path
decreasing_by omega

/-! ### Depth -/

mutual

/-- How deep predicates stand in each other in a segment. -/
def Segment.predicateDepth : Segment → Nat
  | .mk _ none => 0
  | .mk _ (some indexer) => indexer.predicateDepth

/-- How deep predicates stand in each other in an indexer. -/
def Indexer.predicateDepth : Indexer → Nat
  | .index _ => 0
  | .predicate p => p.predicateDepth
  | .malformed _ => 0

/-- How deep predicates stand in each other in a predicate, itself being the first. -/
def Predicate.predicateDepth : Predicate → Nat
  | .mk _ segments _ _ => Segment.predicateDepthList segments + 1

/-- How deep predicates stand in each other in the segments, at most. -/
def Segment.predicateDepthList : List Segment → Nat
  | [] => 0
  | segment :: rest => max segment.predicateDepth (Segment.predicateDepthList rest)

end

mutual

/-- A segment has as many predicates as they are deep, at least. -/
theorem Segment.predicateDepth_le :
    ∀ segment : Segment, segment.predicateDepth ≤ segment.predicateCount
  | .mk _ none => by
      rw [Segment.predicateDepth, Segment.predicateCount]
  | .mk _ (some indexer) => by
      rw [Segment.predicateDepth, Segment.predicateCount]
      apply Indexer.predicateDepth_le indexer

/-- An indexer has as many predicates as they are deep, at least. -/
theorem Indexer.predicateDepth_le :
    ∀ indexer : Indexer, indexer.predicateDepth ≤ indexer.predicateCount
  | .index _ => by
      rw [Indexer.predicateDepth, Indexer.predicateCount]
  | .predicate p => by
      rw [Indexer.predicateDepth, Indexer.predicateCount]
      apply Predicate.predicateDepth_le p
  | .malformed _ => by
      rw [Indexer.predicateDepth, Indexer.predicateCount]

/-- A predicate and those in it are as many as they are deep, at least. -/
theorem Predicate.predicateDepth_le :
    ∀ p : Predicate, p.predicateDepth ≤ p.predicateCount
  | .mk _ segments _ _ => by
      rw [Predicate.predicateDepth, Predicate.predicateCount]
      apply Nat.succ_le_succ (Segment.predicateDepthList_le segments)

/-- Predicates that stand in each other are as many as they are deep. -/
theorem Segment.predicateDepthList_le :
    ∀ segments : List Segment,
      Segment.predicateDepthList segments ≤ Segment.predicateCountList segments
  | [] => by
      rw [Segment.predicateDepthList, Segment.predicateCountList]
  | segment :: rest => by
      rw [Segment.predicateDepthList, Segment.predicateCountList]
      have hs := Segment.predicateDepth_le segment
      have hr := Segment.predicateDepthList_le rest
      omega

end

/-! ### Chains of steps -/

/-- As many steps can follow in a chain.  Content and conditions count the two brackets around
them. -/
def Reading.allowance : Reading → Nat
  | path text => 4 * (utf8Len text / 7) + 3
  | component text => 4 * (utf8Len text / 7) + 2
  | content text => 4 * ((utf8Len text + 2) / 7) + 1
  | condition text => 4 * ((utf8Len text + 2) / 7)

/-- A call of the reader has a smaller allowance than its caller. -/
theorem Reading.Calls.allowance_lt {outer inner : Reading} (h : outer.Calls inner) :
  inner.allowance < outer.allowance
  := by
  cases h with
  | component hc =>
    have := utf8Len_le_of_mem_components hc
    simp only [allowance]
    omega
  | content hb =>
    have := utf8Len_content_add_two_le hb
    simp only [allowance]
    omega
  | condition text =>
    have := utf8Len_trim_le text
    simp only [allowance]
    omega
  | path hc =>
    have := utf8Len_property_add_five_le hc
    simp only [allowance]
    omega

/-- No chain of steps is longer than its first step allows. -/
theorem Reading.length_le_allowance {first : Reading} {others : List Reading}
    (h : (first :: others).IsChain Calls) :
  others.length ≤ first.allowance
  := by
  induction others generalizing first with
  | nil => exact Nat.zero_le _
  | cons next rest ih =>
    obtain ⟨hc, hr⟩ := List.isChain_cons_cons.mp h
    exact Nat.succ_le_of_lt (Nat.lt_of_le_of_lt (ih hr) hc.allowance_lt)

/-- The size of a path bounds what is read in it: it has seven bytes for each of its predicates, at
every level, and for each level of them; the path of a predicate, which is read as a path of its
own, is seven bytes shorter than the component that the predicate stands in, whatever level that is
at; and so a chain of steps that read each other's texts comes to its end. -/
theorem reading_bounded (path : String) :
  7 * Segment.predicateCountList (parsePath path) ≤ path.utf8ByteSize
    ∧ Segment.predicateDepthList (parsePath path) ≤ path.utf8ByteSize / 7
    ∧ (∀ (component : String) (p : Predicate),
      (Segment.ofComponent component.toList).indexer = some (.predicate p) →
      p.property.utf8ByteSize + 7 ≤ component.utf8ByteSize ∧ p.segments = parsePath p.property
        ∧ ∃ content, [Reading.component component.toList, .content content,
          .condition (trim content), .path p.property.toList].IsChain Reading.Calls)
    ∧ ∀ readings : List Reading, (Reading.path path.toList :: readings).IsChain Reading.Calls →
      readings.length ≤ 4 * (path.utf8ByteSize / 7) + 3
  := by
  have hc := seven_mul_predicateCount_parse_le path.toList
  rw [utf8Len_toList] at hc
  refine ⟨hc, ?_, ?_, ?_⟩
  · have hd : Segment.predicateDepthList (parsePath path)
        ≤ Segment.predicateCountList (parse path.toList) := Segment.predicateDepthList_le _
    omega
  · intro component p hp
    obtain ⟨content, hb, hc, hr⟩ := Segment.calls_of_predicate hp
    have hl := Segment.utf8Len_property_add_seven_le hp
    rw [utf8Len_toList, utf8Len_toList] at hl
    refine ⟨hl, hr, content, ?_⟩
    apply List.IsChain.cons_cons hb
    apply List.IsChain.cons_cons (.condition content)
    apply List.IsChain.cons_cons hc (.singleton _)
  · intro readings hr
    have hl := Reading.length_le_allowance hr
    rw [Reading.allowance, utf8Len_toList] at hl
    exact hl

/-- A condition inside the path of another one, with a literal of one character in two bytes. -/
theorem reading_bounded_rows :
  (Segment.ofComponent "rows[@.tags[@.k=='é']!=x]".toList).indexer
      = some (.predicate (.mk "tags[@.k=='é']"
        [.mk "tags" (some (.predicate (.mk "k" [.mk "k" none] .equal "é")))] .notEqual "x"))
    ∧ "tags[@.k=='é']".utf8ByteSize + 7 ≤ "rows[@.tags[@.k=='é']!=x]".utf8ByteSize
    ∧ ∃ readings, readings.length = 4
      ∧ (Reading.path "rows[@.tags[@.k=='é']!=x]".toList :: readings).IsChain Reading.Calls
      ∧ readings.length ≤ 4 * ("rows[@.tags[@.k=='é']!=x]".utf8ByteSize / 7) + 3
  := by
  have hi : (Segment.ofComponent "rows[@.tags[@.k=='é']!=x]".toList).indexer
      = some (.predicate (.mk "tags[@.k=='é']"
        [.mk "tags" (some (.predicate (.mk "k" [.mk "k" none] .equal "é")))] .notEqual "x")) := by
    decide +kernel
  have hc : "rows[@.tags[@.k=='é']!=x]".toList ∈ components "rows[@.tags[@.k=='é']!=x]".toList := by
    decide +kernel
  obtain ⟨-, -, hp, hr⟩ := reading_bounded "rows[@.tags[@.k=='é']!=x]"
  obtain ⟨hl, -, content, hs⟩ := hp _ _ hi
  have hs' := hs.cons_cons (.component hc)
  exact ⟨hi, hl, _, rfl, hs', hr _ hs'⟩

end JsonAudit
