import JsonAudit.Path.Offsets
import JsonAudit.Proofs.Path.Bounds

/-!
# Cuts at characters

The offsets of a scan are the sizes of the texts that it has passed, and a mark that is skipped has
one byte for each of its characters.  So every cut that is made while a path is read is valid, at
every level, and what is read by cuts is what `parse` reads.  `Cutting.Yields` says both.
-/

namespace JsonAudit

open Scanner String

/-! ### One cut -/

/-- The bytes from the end of a beginning for the size of a part are the part. -/
theorem extract_append_append (before part after : ByteArray) :
  (before ++ (part ++ after)).extract before.size (before.size + part.size) = part
  := by
  have h := ByteArray.extract_append_size_add (i := 0) (j := part.size) (a := before)
    (b := part ++ after)
  rw [Nat.add_zero] at h
  rw [h, ByteArray.extract_append_eq_left rfl]

/-- A cut around a part of a text is valid. -/
theorem Cut.isValid_of_append {text before part after : String}
    (h : text = before ++ (part ++ after)) :
  (Cut.mk text before.utf8ByteSize (before ++ part).utf8ByteSize).IsValid
  := by
  constructor
  · rw [utf8ByteSize_append]
    apply Nat.le_add_right
  · show (before ++ part).utf8ByteSize ≤ text.utf8ByteSize
    rw [h, ← append_assoc, utf8ByteSize_append (s := before ++ part)]
    apply Nat.le_add_right
  · apply Pos.Raw.isValid_iff_exists_append.mpr
    exact ⟨before, part ++ after, h, rfl⟩
  · apply Pos.Raw.isValid_iff_exists_append.mpr
    exact ⟨before ++ part, after, h.trans append_assoc.symm, rfl⟩

/-- A cut around a part of a text has the part. -/
theorem Cut.part?_of_append {text before part after : String}
    (h : text = before ++ (part ++ after)) :
  (Cut.mk text before.utf8ByteSize (before ++ part).utf8ByteSize).part? = some part
  := by
  rw [Cut.part?, dif_pos (isValid_of_append h)]
  apply congrArg some
  apply toByteArray_inj.mp
  have hb : text.toByteArray = before.toByteArray ++ (part.toByteArray ++ after.toByteArray) := by
    rw [h, toByteArray_append, toByteArray_append]
  rw [toByteArray_extract]
  show text.toByteArray.extract before.utf8ByteSize (before ++ part).utf8ByteSize = part.toByteArray
  rw [hb, utf8ByteSize_append]
  apply extract_append_append

/-! ### What cuts yield -/

/-- The bracket with this text, closed if a search for its end found it where the text ends. -/
def Bracket.ofFound (text : List Char) : Option (List Char × List Char) → Bracket
  | some (content, []) => .closed content
  | _ => .unbalanced text

/-- A bracket is made of what closing it finds. -/
theorem Bracket.ofRest_eq (rest : List Char) :
  ofRest rest = ofFound rest (closeFrom (start 1) rest)
  := rfl

namespace Cutting

/-- The value is read, and every cut on the way to it is valid. -/
structure Yields {α : Type} (x : Cutting α) (value : α) : Prop where
  value : x.value = some value
  cuts : ∀ cut ∈ x.entries, cut.IsValid

/-- A value without a cut is yielded. -/
theorem yields_pure {α : Type} (value : α) :
  Yields (.pure (some value)) value
  := ⟨rfl, nofun⟩

/-- What is yielded from what is yielded is yielded, with the cuts of both. -/
theorem Yields.andThen {α β : Type} {x : Cutting α} {a : α} (h : x.Yields a)
    {f : α → Cutting β} {b : β} (hf : (f a).Yields b) :
  Yields (Logged.andThen x f) b
  := by
  constructor
  · rw [Logged.value_andThen, h.value]
    exact hf.value
  · rw [Logged.entries_andThen h.value]
    exact List.forall_mem_append.mpr ⟨h.cuts, hf.cuts⟩

/-- A cut at the ends of a part yields the part. -/
theorem yields_cutOut {text : String} {before part after : List Char}
    (h : text.toList = before ++ (part ++ after)) :
  (cutOut text (utf8Len before) (utf8Len (before ++ part))).Yields (ofList part)
  := by
  have ht : text = ofList before ++ (ofList part ++ ofList after) := by
    rw [← ofList_append, ← ofList_append, ← h, ofList_toList]
  rw [← utf8ByteSize_ofList, ← utf8ByteSize_ofList, ofList_append]
  constructor
  · exact Cut.part?_of_append ht
  · exact List.forall_mem_singleton.mpr (Cut.isValid_of_append ht)

/-- A cut from a part on yields all that is behind it. -/
theorem yields_cutOut_end {text : String} {before rest : List Char}
    (h : text.toList = before ++ rest) :
  (cutOut text (utf8Len before) text.utf8ByteSize).Yields (ofList rest)
  := by
  have ht : text.toList = before ++ (rest ++ []) := by rw [List.append_nil, h]
  rw [← utf8Len_toList, h]
  exact yields_cutOut ht

/-- Texts are read one by one if each of them is. -/
theorem yields_readEach {α : Type} {read : String → Cutting α} {value : List Char → α}
    {texts : List (List Char)} (h : ∀ text ∈ texts, (read (ofList text)).Yields (value text)) :
  (readEach read (texts.map ofList)).Yields (texts.map value)
  := by
  induction texts with
  | nil => exact yields_pure []
  | cons text rest ih =>
    obtain ⟨ht, hr⟩ := List.forall_mem_cons.mp h
    apply ht.andThen
    apply (ih hr).andThen
    apply yields_pure

/-! ### Components -/

theorem modifyHead_nil_append (texts : List (List Char)) :
  texts.modifyHead ([] ++ ·) = texts
  := congrFun List.modifyHead_id texts

/-- The components from a first one on, of which `current` has been scanned, are the pieces that are
not empty; the next one begins behind a dot, which has one byte. -/
theorem yields_componentsFrom {path : String} {s : Scanner} {done current rest : List Char}
    (h : path.toList = done ++ (current ++ rest)) :
  (componentsFrom path s (utf8Len done) (utf8Len (done ++ current)) rest).Yields
    ((((piecesFrom s rest).modifyHead (current ++ ·)).filter fun piece =>
      !piece.isEmpty).map ofList)
  := by
  induction rest generalizing s done current with
  | nil =>
    rw [List.append_nil] at h
    rw [componentsFrom, piecesFrom, List.modifyHead_cons, List.append_nil, ← utf8Len_toList, h]
    by_cases hc : current = []
    · rw [if_neg (mt utf8Len_lt_append_iff.mp (not_not_intro hc)), hc]
      apply yields_pure
    · have hf : [current].filter (fun piece => !piece.isEmpty) = [current] := by simp [hc]
      rw [if_pos (utf8Len_lt_append_iff.mpr hc), hf, ← h, utf8Len_toList]
      apply (yields_cutOut_end h).andThen
      apply yields_pure
  | cons c rest ih =>
    by_cases ho : s.isOutermost '.' c = true
    · obtain rfl := eq_of_isOutermost ho
      have hd : path.toList = (done ++ current ++ ['.']) ++ ([] ++ rest) := by simp [h]
      have hr := ih (s := s.next '.') hd
      rw [List.append_nil, utf8Len_concat, modifyHead_nil_append] at hr
      rw [componentsFrom, piecesFrom, if_pos ho, if_pos ho, List.modifyHead_cons, List.append_nil]
      by_cases hc : current = []
      · rw [if_neg (mt utf8Len_lt_append_iff.mp (not_not_intro hc)), hc]
        rw [hc] at hr
        exact hr
      · rw [if_pos (utf8Len_lt_append_iff.mpr hc), List.filter_cons_of_pos (by simp [hc])]
        apply (yields_cutOut h).andThen
        apply Yields.andThen hr
        apply yields_pure
    · have hd : path.toList = done ++ (current ++ [c] ++ rest) := by simp [h]
      have hr := ih (s := s.next c) hd
      rw [← List.append_assoc, utf8Len_concat] at hr
      rw [componentsFrom, piecesFrom, if_neg ho, if_neg ho, List.modifyHead_modifyHead]
      have hm : (fun piece => current ++ [c] ++ piece) = (current ++ ·) ∘ (c :: ·) := by
        funext piece
        simp
      rw [hm] at hr
      exact hr

/-- The cuts of a path by its dots are valid and yield its components. -/
theorem yields_components (path : String) :
  (componentsFrom path (start 0) 0 0 path.toList).Yields (pathComponents path)
  := by
  have h : path.toList = [] ++ ([] ++ path.toList) := rfl
  have hy := yields_componentsFrom (s := start 0) h
  rw [modifyHead_nil_append] at hy
  exact hy

/-! ### Brackets -/

/-- A bracket of which `done` has been scanned is closed if the search goes on to its end. -/
theorem yields_bracketFrom {text : String} {s : Scanner} {done rest : List Char}
    (h : text.toList = done ++ rest) :
  (bracketFrom text s (utf8Len done) rest).Yields
    (.ofFound text.toList ((closeFrom s rest).map (Prod.map (done ++ ·) id)))
  := by
  induction rest generalizing s done with
  | nil => apply yields_pure
  | cons c rest ih =>
    by_cases ho : s.isOutermost ']' c = true
    · obtain rfl := eq_of_isOutermost ho
      have hs : text.utf8ByteSize = utf8Len (done ++ [']'] ++ rest) := by
        rw [← utf8Len_toList, h, List.append_cons]
      have hi : utf8Len done + 1 = utf8Len (done ++ [']']) := (utf8Len_concat done ']').symm
      rw [bracketFrom, closeFrom, if_pos ho, if_pos ho, Option.map_some, hs, hi]
      cases rest with
      | nil =>
        have ht : text.toList = [] ++ (done ++ [']']) := h
        rw [List.append_nil, if_pos rfl]
        apply (yields_cutOut ht).andThen
        rw [toList_ofList]
        have hd : Prod.map (done ++ ·) id ([], []) = (done, ([] : List Char)) := by simp
        rw [hd]
        apply yields_pure
      | cons d more =>
        have hn : utf8Len (done ++ [']']) ≠ utf8Len (done ++ [']'] ++ d :: more) :=
          Nat.ne_of_lt (utf8Len_lt_append_iff.mpr (List.cons_ne_nil d more))
        rw [if_neg hn]
        apply yields_pure
    · have hd : text.toList = done ++ [c] ++ rest := by simp [h]
      have hr := ih (s := s.next c) hd
      rw [utf8Len_concat] at hr
      rw [bracketFrom, closeFrom, if_neg ho, if_neg ho]
      cases hf : closeFrom (s.next c) rest with
      | none =>
        rw [hf] at hr
        exact hr
      | some found =>
        rw [hf, Option.map_some, Prod.map, List.append_assoc] at hr
        exact hr

/-- The offset of a mark is behind the bytes of what stands before it. -/
theorem offsetOf_append {mark : Char} {before : List Char} (h : mark ∉ before) (i : Nat)
    (rest : List Char) :
  offsetOf mark i (before ++ mark :: rest) = some (i + utf8Len before)
  := by
  induction before generalizing i with
  | nil => rw [List.nil_append, offsetOf, if_pos BEq.rfl, utf8Len_nil, Nat.add_zero]
  | cons c more ih =>
    obtain ⟨hc, hm⟩ := not_or.mp (mt List.mem_cons.mpr h)
    rw [List.cons_append, offsetOf, if_neg (by simp [Ne.symm hc]), ih hm, utf8Len_cons]
    congr 1
    omega

/-- A mark that is not in a text has no offset there. -/
theorem offsetOf_of_not_mem {mark : Char} {text : List Char} (h : mark ∉ text) (i : Nat) :
  offsetOf mark i text = none
  := by
  induction text generalizing i with
  | nil => rfl
  | cons c rest ih =>
    obtain ⟨hc, hr⟩ := not_or.mp (mt List.mem_cons.mpr h)
    rw [offsetOf, if_neg (by simp [Ne.symm hc]), ih hr]

/-- The cuts of a component at its bracket are valid and yield its name and its bracket. -/
theorem yields_splitByOffset (component : List Char) :
  (splitByOffset (ofList component)).Yields
    (ofList (splitBracket component).1, (splitBracket component).2)
  := by
  by_cases hm : '[' ∈ component
  · obtain ⟨name, rest, rfl, hn⟩ := List.eq_append_cons_of_mem hm
    have hl : (ofList (name ++ '[' :: rest)).toList = [] ++ (name ++ '[' :: rest) := toList_ofList
    have hr : (ofList (name ++ '[' :: rest)).toList = name ++ ['['] ++ rest := by simp
    have ht : (ofList rest).toList = [] ++ rest := toList_ofList
    have hi : utf8Len name + 1 = utf8Len (name ++ ['[']) := (utf8Len_concat name '[').symm
    have hf : ∀ found : Option (List Char × List Char),
        found.map (Prod.map ([] ++ ·) id) = found := by
      intro found
      apply Option.map_id'
    have hb := yields_bracketFrom (s := start 1) ht
    rw [hf, toList_ofList, ← Bracket.ofRest_eq, utf8Len_nil] at hb
    rw [splitByOffset, toList_ofList, offsetOf_append hn, Nat.zero_add,
      splitBracket_of_bracket hn]
    apply (yields_cutOut hl).andThen
    rw [hi]
    apply (yields_cutOut_end hr).andThen
    rw [toList_ofList]
    apply Yields.andThen hb
    apply yields_pure
  · rw [splitByOffset, toList_ofList, offsetOf_of_not_mem hm, splitBracket_of_simple hm]
    apply yields_pure

/-! ### Literals -/

/-- A text is enclosed by a mark of one byte exactly if it begins and ends with two of them. -/
theorem isEnclosed_iff {literal : List Char} {mark : Char} (hm : mark.utf8Size = 1) :
  isEnclosed (ofList literal) mark = true ↔ ∃ inner, literal = mark :: (inner ++ [mark])
  := by
  rw [isEnclosed, Bool.and_eq_true, Bool.and_eq_true, decide_eq_true_eq, beq_iff_eq, beq_iff_eq,
    toList_ofList, utf8ByteSize_ofList, List.head?_eq_some_iff, List.getLast?_eq_some_iff]
  constructor
  · rintro ⟨⟨hs, rest, rfl⟩, before, hb⟩
    cases before with
    | nil =>
      obtain ⟨-, rfl⟩ := List.cons.inj hb
      rw [utf8Len_cons, utf8Len_nil, hm] at hs
      cases Nat.not_succ_le_self _ hs
    | cons first inner =>
      obtain ⟨rfl, hr⟩ := List.cons.inj hb
      exact ⟨inner, congrArg (mark :: ·) hr⟩
  · rintro ⟨inner, rfl⟩
    refine ⟨⟨?_, _, rfl⟩, mark :: inner, rfl⟩
    rw [utf8Len_cons, utf8Len_concat, hm]
    omega

/-- A quote mark has one byte. -/
theorem utf8Size_of_isQuoteMark {mark : Char} (h : isQuoteMark mark = true) :
  mark.utf8Size = 1
  := by
  rw [isQuoteMark, Bool.or_eq_true, beq_iff_eq, beq_iff_eq] at h
  rcases h with rfl | rfl
  · rfl
  · rfl

/-- A literal that is not between equal quote marks stands for itself. -/
theorem unquote_of_not_enclosed {literal : List Char}
    (h : ∀ mark inner, isQuoteMark mark = true → literal ≠ mark :: (inner ++ [mark])) :
  unquote literal = literal
  := by
  unfold unquote
  split
  · rename_i mark rest
    split
    · rename_i hc
      rw [Bool.and_eq_true, beq_iff_eq] at hc
      obtain ⟨inner, rfl⟩ := List.getLast?_eq_some_iff.mp hc.2
      cases h mark inner hc.1 rfl
    · rfl
  · rfl

/-- A text is enclosed by quote marks exactly if it begins and ends with two of one kind. -/
theorem isEnclosed_by_quoteMark_iff {literal : List Char} :
  (isEnclosed (ofList literal) '"' || isEnclosed (ofList literal) '\'') = true
    ↔ ∃ mark inner, isQuoteMark mark = true ∧ literal = mark :: (inner ++ [mark])
  := by
  rw [Bool.or_eq_true, isEnclosed_iff rfl, isEnclosed_iff rfl]
  constructor
  · rintro (⟨inner, h⟩ | ⟨inner, h⟩)
    · exact ⟨'"', inner, rfl, h⟩
    · exact ⟨'\'', inner, rfl, h⟩
  · rintro ⟨mark, inner, hm, h⟩
    rw [isQuoteMark, Bool.or_eq_true, beq_iff_eq, beq_iff_eq] at hm
    rcases hm with rfl | rfl
    · exact .inl ⟨inner, h⟩
    · exact .inr ⟨inner, h⟩

/-- A quote mark has one byte: the offsets next to the ends are those of what stands between. -/
theorem yields_unquoteByOffset (literal : List Char) :
  (unquoteByOffset (ofList literal)).Yields (ofList (unquote literal))
  := by
  by_cases he : (isEnclosed (ofList literal) '"' || isEnclosed (ofList literal) '\'') = true
  · obtain ⟨mark, inner, hm, rfl⟩ := isEnclosed_by_quoteMark_iff.mp he
    have hl : (ofList (mark :: (inner ++ [mark]))).toList = [mark] ++ (inner ++ [mark]) :=
      toList_ofList
    have hs : ∀ text : List Char, utf8Len (text ++ [mark]) = utf8Len text + 1 := by
      intro text
      rw [utf8Len_concat, utf8Size_of_isQuoteMark hm]
    have hn : (ofList (mark :: (inner ++ [mark]))).utf8ByteSize - 1
        = utf8Len ([mark] ++ inner) := by
      rw [utf8ByteSize_ofList, ← List.cons_append, hs, Nat.add_sub_cancel]
      rfl
    rw [unquoteByOffset, if_pos he, unquote_quoted hm, hn, ← Nat.zero_add 1, ← utf8Len_nil, ← hs]
    apply yields_cutOut hl
  · rw [unquoteByOffset, if_neg he, unquote_of_not_enclosed]
    · apply yields_pure
    · intro mark inner hm h
      exact he (isEnclosed_by_quoteMark_iff.mpr ⟨mark, inner, hm, h⟩)

/-! ### Conditions -/

/-- The offset of the operator is behind the bytes of what stands before it. -/
theorem offsetOfOperator_eq (s : Scanner) (i : Nat) (text : List Char) :
  offsetOfOperator s i text
    = (splitOperator s text).map fun (before, operator, _) => (i + utf8Len before, operator)
  := by
  induction text generalizing s i with
  | nil => rfl
  | cons c rest ih =>
    rw [offsetOfOperator, splitOperator]
    cases operatorAt s c rest with
    | some operator => rfl
    | none =>
      have hn : ∀ n, i + c.utf8Size + n = i + (n + c.utf8Size) := by omega
      simp only [ih, Option.map_map, Function.comp_def, utf8Len_cons, hn]

/-- The cuts of a condition around its operator are valid and yield its parts. -/
theorem yields_conditionOfBody (body : List Char) :
  (conditionOfBody (ofList body)).Yields
    ((splitOperator (start 0) body).bind fun (before, operator, after) =>
      Condition.ofParts before operator after)
  := by
  rw [conditionOfBody, toList_ofList, offsetOfOperator_eq]
  cases hs : splitOperator (start 0) body with
  | none => apply yields_pure
  | some found =>
    obtain ⟨before, operator, after⟩ := found
    obtain ⟨rfl, -, -⟩ := splitOperator_spec (sound_start 0) hs
    have hb : (ofList (before ++ operator.firstChar :: '=' :: after)).toList
        = [] ++ (before ++ operator.firstChar :: '=' :: after) := toList_ofList
    have ha : (ofList (before ++ operator.firstChar :: '=' :: after)).toList
        = before ++ [operator.firstChar] ++ ['='] ++ after := by
      simp
    have hf : operator.firstChar.utf8Size = 1 := by
      cases operator <;> rfl
    have hi : utf8Len before + 2 = utf8Len (before ++ [operator.firstChar] ++ ['=']) := by
      rw [utf8Len_concat, utf8Len_concat, hf]
      rfl
    simp only [Option.map_some, Option.bind_some, Nat.zero_add]
    apply (yields_cutOut hb).andThen
    rw [toList_ofList, Condition.ofParts]
    by_cases hp : ((trim before).isEmpty || (trim before).any isBlank) = true
    · rw [if_pos hp, if_pos (by rw [hp, Bool.true_or])]
      apply yields_pure
    · rw [if_neg hp, hi]
      apply (yields_cutOut_end ha).andThen
      rw [toList_ofList]
      by_cases hl : (trim after).isEmpty = true
      · rw [if_pos hl, if_pos (by rw [hl, Bool.or_true])]
        apply yields_pure
      · have hn : ¬ ((trim before).isEmpty || (trim before).any isBlank
            || (trim after).isEmpty) = true := by
          rw [Bool.or_eq_true]
          exact not_or.mpr ⟨hp, hl⟩
        rw [if_neg hl, if_neg hn]
        apply (yields_unquoteByOffset _).andThen
        rw [toList_ofList]
        apply yields_pure

/-- A condition in its wrapper is read in the parts around its operator. -/
theorem readCondition_eq_bind {text body : List Char}
    (h : unwrap text = some ('@' :: '.' :: body)) :
  readCondition text = (splitOperator (start 0) body).bind fun (before, operator, after) =>
    Condition.ofParts before operator after
  := by
  unfold readCondition
  split
  · rename_i body' hu
    cases h.symm.trans hu
    cases splitOperator (start 0) body with
    | none => rfl
    | some found => rfl
  · rename_i hn
    cases hn body h

/-- The cuts of a condition are valid and yield what is read. -/
theorem yields_conditionByOffset (text : List Char) :
  (conditionByOffset text).Yields (readCondition text)
  := by
  unfold conditionByOffset
  split
  · rename_i body hu
    rw [readCondition_eq_bind hu]
    apply yields_conditionOfBody
  · rename_i hn
    have hc : readCondition text = none := by
      unfold readCondition
      split
      · rename_i body hu
        cases hn body hu
      · rfl
    rw [hc]
    apply yields_pure

/-! ### Paths -/

section Nested

variable {nested : String → Cutting (List Segment)}

/-- The cuts of an indexer are valid and yield it, if those of its nested path are. -/
theorem yields_indexerByOffset {content : List Char}
    (h : ∀ condition, readCondition (trim content) = some condition →
      (nested (ofList condition.property)).Yields (parse condition.property)) :
  (indexerByOffset nested content).Yields (.ofContent content)
  := by
  apply (yields_conditionByOffset _).andThen
  rw [Indexer.ofContent]
  cases hc : readCondition (trim content) with
  | none =>
    cases hi : readIndex (trim content) with
    | none => apply yields_pure
    | some i => apply yields_pure
  | some condition =>
    apply (h condition hc).andThen
    apply yields_pure

/-- The cuts of a segment are valid and yield it, if those of its nested path are. -/
theorem yields_segmentByOffset {component : List Char}
    (h : ∀ content condition, (splitBracket component).2 = some (.closed content) →
      readCondition (trim content) = some condition →
      (nested (ofList condition.property)).Yields (parse condition.property)) :
  (segmentByOffset nested (ofList component)).Yields (.ofComponent component)
  := by
  apply (yields_splitByOffset component).andThen
  rw [Segment.ofComponent]
  cases hb : (splitBracket component).2 with
  | none => apply yields_pure
  | some bracket =>
    cases bracket with
    | unbalanced rest => apply yields_pure
    | closed content =>
      apply (yields_indexerByOffset fun condition hc => h content condition hb hc).andThen
      apply yields_pure

end Nested

/-- A path is read by cuts as it is read character by character, and all of them are valid. -/
theorem yields_parseByOffsets (path : String) :
  (parseByOffsets path).Yields (parsePath path)
  := by
  rw [parseByOffsets, parsePath, parse_eq_map]
  apply (yields_components path).andThen
  apply yields_readEach
  intro component hm
  apply yields_segmentByOffset
  intro content condition hb hc
  have hs : (ofList condition.property).utf8ByteSize < path.utf8ByteSize := by
    have hproperty := utf8Len_property_add_five_le hc
    have htrim := utf8Len_trim_le content
    have hcontent := utf8Len_content_add_two_le hb
    have hcomponent := utf8Len_le_of_mem_components hm
    rw [utf8ByteSize_ofList, ← utf8Len_toList path]
    omega
  have hy := yields_parseByOffsets (ofList condition.property)
  rw [parsePath, toList_ofList] at hy
  rw [if_pos hs]
  exact hy
termination_by path.utf8ByteSize

end Cutting

/-- Every cut that is made while a path is read, at every level of its conditions, has its ends in
order, within the text and between characters; so none is refused, and the path is read to its end
as `parsePath` reads it. -/
theorem cuts_valid (path : String) :
  (parseByOffsets path).value = some (parsePath path)
    ∧ ∀ cut ∈ (parseByOffsets path).entries, cut.IsValid
  := by
  have hy := Cutting.yields_parseByOffsets path
  exact ⟨hy.value, hy.cuts⟩

/-- A literal between quote marks in the path of a condition, and characters of two and of three
bytes around every offset. -/
theorem cuts_valid_rows :
  Cut.mk "'ß'" 1 3 ∈ (parseByOffsets "ü.é[?(@.k[@.→!='ß']== \"x\")].[").entries
    ∧ (Cut.mk "'ß'" 1 3).IsValid
  := by
  have hm : Cut.mk "'ß'" 1 3 ∈ (parseByOffsets "ü.é[?(@.k[@.→!='ß']== \"x\")].[").entries := by
    decide +kernel
  exact ⟨hm, (cuts_valid _).2 _ hm⟩

end JsonAudit
