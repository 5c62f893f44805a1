import JsonAudit.Proofs.Path.Indices
import JsonAudit.Proofs.Path.QuotedLiterals
import JsonAudit.Proofs.Path.Resplitting

/-!
# Printed segments

The text of a segment is a component of its own.  It says again what the component said from which
the segment was read, if that was an index or a condition: wrappers, blanks, a plus sign and the
marks around the literal are gone, but the path of the condition is still one that can stand in a
condition, and its literal stands in double quotes.  So a path is read in the same way after its
segments are printed (`parsePath_print`), unless a printed literal would end at a mark inside it or
a printed `==` would begin one character too early.
-/

namespace JsonAudit

open Scanner

/-! ### Segments that are read back -/

/-- In its text the literal goes up to the last quote mark, and the operator is no other one that
begins at the end of the path. -/
def Predicate.IsPrintable (p : Predicate) : Prop :=
  '"' ∉ p.literal.toList
    ∧ (p.operator = .equal → p.property.toList.getLast?.any beginsOperator = false)

instance (p : Predicate) : Decidable p.IsPrintable :=
  inferInstanceAs (Decidable (_ ∧ _))

/-- The indexer is not malformed, and a predicate is printable. -/
def Indexer.IsPrintable : Indexer → Prop
  | index _ => True
  | predicate p => p.IsPrintable
  | malformed _ => False

instance : (indexer : Indexer) → Decidable indexer.IsPrintable
  | .index _ => inferInstanceAs (Decidable True)
  | .predicate p => inferInstanceAs (Decidable p.IsPrintable)
  | .malformed _ => inferInstanceAs (Decidable False)

/-- The text of the segment states it alone, and leaves no bracket open. -/
structure Segment.ReadsBack (segment : Segment) : Prop where
  parse_eq : parse segment.text.toList = [segment]
  settled : ((start 0).run segment.text.toList).Settled

/-- A name without a dot and a bracket is read back. -/
theorem Segment.readsBack_name {name : List Char} (hn : name ≠ []) (hd : '.' ∉ name)
    (hb : '[' ∉ name) :
  (mk (String.ofList name) none).ReadsBack
  := by
  have ht : (mk (String.ofList name) none).text.toList = name := String.toList_ofList
  constructor
  · rw [ht, parse_name hn hd hb]
  · rw [ht]
    exact settled_start.run hb

/-- An index up to the limit is read back with its name. -/
theorem Segment.readsBack_index {name : List Char} (hd : '.' ∉ name) (hb : '[' ∉ name) {i : Nat}
    (hi : i ≤ indexLimit) :
  (mk (String.ofList name) (some (.index i))).ReadsBack
  := by
  have ht : (mk (String.ofList name) (some (.index i))).text.toList
      = name ++ '[' :: ((Nat.repr i).toList ++ [']']) := by
    simp [text, property, indexer, Indexer.text, String.toList_append]
  constructor
  · rw [ht, parse_closed hd hb (closeFrom_repr i []), ofContent_repr hi]
  · rw [ht]
    exact settled_closed hb (closeFrom_repr i [])

/-- A printable condition is read back with its name. -/
theorem Segment.readsBack_condition {name : List Char} (hd : '.' ∉ name) (hb : '[' ∉ name)
    {condition : Condition} (hp : IsNestedPath condition.property)
    (hc : (Predicate.ofCondition condition).IsPrintable) :
  (mk (String.ofList name) (some (.predicate (.ofCondition condition)))).ReadsBack
  := by
  obtain ⟨property, operator, literal⟩ := condition
  obtain ⟨hl, he⟩ := hc
  simp only [Predicate.ofCondition, Predicate.literal, Predicate.operator, Predicate.property,
    String.toList_ofList] at hl he
  have hw : Wrapped (conditionHead [] property [] operator ++ quotedLiteral [] '"' literal)
      ([] ++ (conditionHead [] property [] operator ++ quotedLiteral [] '"' literal ++ [])) :=
    .alone rfl rfl
  have ht : (mk (String.ofList name) (some (.predicate
        (.ofCondition ⟨property, operator, literal⟩)))).text.toList
      = name ++ '[' :: ([] ++ (conditionHead [] property [] operator
        ++ quotedLiteral [] '"' literal ++ []) ++ [']']) := by
    simp [text, Segment.property, indexer, Indexer.text, Predicate.text, Predicate.ofCondition,
      Predicate.property, Predicate.operator, Predicate.literal, conditionHead, quotedLiteral,
      String.toList_append]
  obtain ⟨hr, hs⟩ := parse_quotedLiteral hd hb hp he rfl rfl rfl hl hw
  constructor
  · rw [ht, hr]
  · rw [ht]
    exact hs

/-! ### Segments that were read -/

/-- An index that is read is within the limit. -/
theorem le_of_readIndex {text : List Char} {i : Nat} (h : readIndex text = some i) :
  i ≤ indexLimit
  := by
  unfold readIndex at h
  extract_lets digits at h
  split at h
  · rename_i hc
    simp only [Bool.and_eq_true, decide_eq_true_eq] at hc
    cases h
    exact hc.2
  · cases h

/-- A closed bracket is closed by the last character of its component. -/
theorem closeFrom_of_ofRest {rest content : List Char}
    (h : Bracket.ofRest rest = .closed content) :
  closeFrom (start 1) rest = some (content, [])
  := by
  unfold Bracket.ofRest at h
  split at h
  · rename_i hc
    cases h
    exact hc
  · cases h

/-- A segment that was read from a closed bracket is read back if its indexer is printable. -/
theorem Segment.readsBack_ofContent {name content : List Char} (hd : '.' ∉ name) (hb : '[' ∉ name)
    (hc : closeFrom (start 1) content = none) (h : (Indexer.ofContent content).IsPrintable) :
  (mk (String.ofList name) (some (.ofContent content))).ReadsBack
  := by
  rw [Indexer.ofContent] at h ⊢
  cases hr : readCondition (trim content) with
  | some condition =>
    rw [hr] at h
    exact readsBack_condition hd hb (isNestedPath_of_readCondition hc hr) h
  | none =>
    cases hi : readIndex (trim content) with
    | some i => exact readsBack_index hd hb (le_of_readIndex hi)
    | none =>
      rw [hr, hi] at h
      cases h

/-- A segment that was read is read back from its text, if its indexer is printable. -/
theorem Segment.readsBack_ofComponent {path component : List Char}
    (hc : component ∈ components path)
    (h : ∀ indexer ∈ (ofComponent component).indexer, indexer.IsPrintable) :
  (ofComponent component).ReadsBack
  := by
  have hd := (simple_name_of_mem_components hc).1
  by_cases hm : '[' ∈ component
  · obtain ⟨name, rest, rfl, hb⟩ := List.eq_append_cons_of_mem hm
    rw [splitBracket_of_bracket hb] at hd
    rw [ofComponent, splitBracket_of_bracket hb] at h ⊢
    have hp := h _ rfl
    cases hr : Bracket.ofRest rest with
    | closed content =>
      rw [hr] at hp
      exact readsBack_ofContent hd hb (closeFrom_content (closeFrom_of_ofRest hr)) hp
    | unbalanced text =>
      rw [hr] at hp
      cases hp
  · have hn : component ≠ [] := by
      rintro rfl
      cases (List.mem_filter.mp hc).2
    rw [splitBracket_of_simple hm] at hd
    rw [ofComponent, splitBracket_of_simple hm]
    exact readsBack_name hn hd hm

/-! ### Paths -/

/-- Segments that are read back one by one are read back from their texts joined by dots. -/
theorem Segment.parsePath_intercalate {segments : List Segment}
    (h : ∀ segment ∈ segments, segment.ReadsBack) :
  parsePath (".".intercalate (segments.map text)) = segments
  := by
  have hd : ".".toList = ['.'] := rfl
  have hs : ∀ path ∈ (segments.map fun segment => segment.text.toList).dropLast,
      ((start 0).run path).Settled := by
    intro path hp
    obtain ⟨segment, hm, rfl⟩ := List.mem_map.mp (List.dropLast_subset _ hp)
    exact (h segment hm).settled
  have hr : ∀ segment ∈ segments,
      (components segment.text.toList).map ofComponent = [segment] := by
    intro segment hm
    rw [← parse_eq_map, (h segment hm).parse_eq]
  rw [parsePath, String.toList_intercalate, List.map_map, hd, parse_eq_map]
  show (components (['.'].intercalate (segments.map fun segment => segment.text.toList))).map
    ofComponent = segments
  rw [components_intercalate hs, List.flatMap_map, List.map_flatMap, List.flatMap_congr hr,
    List.flatMap_singleton']

/-- The segments of a path are read back from their texts joined by dots, if every indexer is
printable. -/
theorem parsePath_print (path : String)
    (h : ∀ segment ∈ parsePath path, ∀ indexer ∈ segment.indexer, indexer.IsPrintable) :
  parsePath (".".intercalate ((parsePath path).map Segment.text)) = parsePath path
  := by
  apply Segment.parsePath_intercalate
  intro segment hm
  have hp := h segment hm
  rw [parsePath, parse_eq_map] at hm
  obtain ⟨component, hc, rfl⟩ := List.mem_map.mp hm
  exact Segment.readsBack_ofComponent hc hp

/-- A wrapper, blanks, a quoted literal with a bracket, a dot and an operator in it, an index with
a plus sign, and dots at both ends. -/
theorem parsePath_print_rows :
  (∀ segment ∈ parsePath ".rows[?( @.tags[@.k!='a].b'].id != 'x]==.y' )]..at[ +07 ].",
      ∀ indexer ∈ segment.indexer, indexer.IsPrintable)
    ∧ parsePath "rows[@.tags[@.k!='a].b'].id!=\"x]==.y\"].at[7]"
      = parsePath ".rows[?( @.tags[@.k!='a].b'].id != 'x]==.y' )]..at[ +07 ]."
  := by
  have hp : ∀ segment ∈ parsePath ".rows[?( @.tags[@.k!='a].b'].id != 'x]==.y' )]..at[ +07 ].",
      ∀ indexer ∈ segment.indexer, indexer.IsPrintable := by
    decide +kernel
  have ht : ".".intercalate
        ((parsePath ".rows[?( @.tags[@.k!='a].b'].id != 'x]==.y' )]..at[ +07 ].").map Segment.text)
      = "rows[@.tags[@.k!='a].b'].id!=\"x]==.y\"].at[7]" := by
    decide +kernel
  refine ⟨hp, ?_⟩
  rw [← ht]
  exact parsePath_print _ hp

end JsonAudit
