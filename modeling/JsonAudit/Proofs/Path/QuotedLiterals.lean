import JsonAudit.Proofs.Path.Conditions

/-!
# Literals in quote marks

A literal in quote marks may hold everything but its mark: brackets, dots, operators and the other
mark are part of it.  `parsePath_quoted` says that it is read as it stands, in every layout and
wrapper of the condition.
-/

namespace JsonAudit

open Scanner

/-! ### Scanning -/

/-- A literal between quote marks, and blanks before it. -/
def quotedLiteral (blanks : List Char) (mark : Char) (literal : List Char) : List Char :=
  blanks ++ [mark] ++ literal ++ [mark]

/-- Blanks before a literal leave it awaited. -/
theorem Scanner.run_awaiting (depth : Nat) (previous : Option Char) {blanks : List Char}
    (hb : allBlank blanks = true) :
  ∃ last, (⟨depth, none, true, previous⟩ : Scanner).run blanks = ⟨depth, none, true, last⟩
  := by
  induction blanks generalizing previous with
  | nil => exact ⟨previous, rfl⟩
  | cons c rest ih =>
    rw [allBlank, List.all_cons, Bool.and_eq_true] at hb
    have hn : (⟨depth, none, true, previous⟩ : Scanner).next c = ⟨depth, none, true, some c⟩ := by
      simp [Scanner.next, hb.1]
    rw [Scanner.run, List.foldl_cons, hn]
    exact ih (some c) hb.2

/-- A quoted literal goes up to its mark, whatever it holds. -/
theorem Scanner.run_quoted (depth : Nat) (previous : Option Char) {mark : Char}
    {literal : List Char} (hl : mark ∉ literal) :
  closeFrom ⟨depth, some mark, false, previous⟩ (literal ++ [mark]) = none
    ∧ (⟨depth, some mark, false, previous⟩ : Scanner).run (literal ++ [mark])
      = ⟨depth, none, false, some mark⟩
  := by
  have ho : ∀ (last : Option Char) (c : Char),
      ¬ (⟨depth, some mark, false, last⟩ : Scanner).isOutermost ']' c = true := by
    intro last c
    simp [isOutermost, Scanner.isPlain]
  induction literal generalizing previous with
  | nil =>
    rw [List.nil_append, closeFrom, if_neg (ho previous mark)]
    simp [closeFrom, Scanner.run, Scanner.next]
  | cons c rest ih =>
    obtain ⟨hc, hr⟩ := not_or.mp (mt List.mem_cons.mpr hl)
    have hn : (⟨depth, some mark, false, previous⟩ : Scanner).next c
        = ⟨depth, some mark, false, some c⟩ := by
      simp [Scanner.next, Ne.symm hc]
    obtain ⟨hcr, hrr⟩ := ih (some c) hr
    rw [List.cons_append, closeFrom, if_neg (ho previous c), Scanner.run, List.foldl_cons, hn,
      hcr]
    exact ⟨rfl, hrr⟩

/-- A quoted literal leaves the bracket open, and is itself closed. -/
theorem run_quotedLiteral {blanks literal : List Char} {mark : Char}
    (hb : allBlank blanks = true) (hm : isQuoteMark mark = true) (hl : mark ∉ literal) :
  closeFrom expecting (quotedLiteral blanks mark literal) = none
    ∧ expecting.run (quotedLiteral blanks mark literal) = ⟨1, none, false, some mark⟩
  := by
  obtain ⟨last, hr⟩ := run_awaiting 1 (some '=') hb
  have hr : expecting.run blanks = ⟨1, none, true, last⟩ := hr
  have hk := isBlank_of_isQuoteMark hm
  have hn : (⟨1, none, true, last⟩ : Scanner).next mark = ⟨1, some mark, false, some mark⟩ := by
    simp [Scanner.next, hk, hm]
  have hc : ']' ∉ blanks ++ [mark] := by
    rw [List.mem_append, not_or]
    refine ⟨not_mem_idle (isIdle_of_mem_blanks hb) rfl, ?_⟩
    rw [List.mem_singleton]
    rintro rfl
    cases hm
  have hq : expecting.run (blanks ++ [mark]) = ⟨1, some mark, false, some mark⟩ := by
    rw [run_append, hr]
    exact hn
  obtain ⟨hcl, hrl⟩ := run_quoted 1 (some mark) hl
  rw [quotedLiteral, List.append_assoc, closeFrom_append_eq_none_iff,
    run_append expecting (blanks ++ [mark]), hq]
  exact ⟨⟨closeFrom_of_not_mem hc _, hcl⟩, hrl⟩

/-- A condition with a quoted literal goes up to the end of its bracket. -/
theorem closeFrom_quotedLiteral {opening property blanks blanks' literal ending : List Char}
    {operator : Operator} {mark : Char} (ho : ∀ c ∈ opening, isIdle c = true)
    (hp : IsNestedPath property) (hb : allBlank blanks = true) (hb' : allBlank blanks' = true)
    (hm : isQuoteMark mark = true) (hl : mark ∉ literal) (he : ∀ c ∈ ending, isIdle c = true) :
  closeFrom (start 1) (conditionHead opening property blanks operator
      ++ quotedLiteral blanks' mark literal ++ ending ++ [']'])
    = some (conditionHead opening property blanks operator
      ++ quotedLiteral blanks' mark literal ++ ending, [])
  := by
  obtain ⟨hch, hrh⟩ := run_conditionHead ho hp hb operator
  obtain ⟨hcl, hrl⟩ := run_quotedLiteral hb' hm hl
  have hc : closeFrom (start 1) (conditionHead opening property blanks operator
      ++ quotedLiteral blanks' mark literal) = none := by
    rw [closeFrom_append_eq_none_iff, hrh]
    exact ⟨hch, hcl⟩
  have ha : ((start 1).run (conditionHead opening property blanks operator
      ++ quotedLiteral blanks' mark literal)).Alike (start 1) := by
    rw [run_append, hrh, hrl]
    refine ⟨rfl, rfl, rfl, fun _ => ?_⟩
    cases hk : beginsOperator mark with
    | false => exact hk
    | true =>
      obtain ⟨other, rfl⟩ := exists_operator hk
      rw [isQuoteMark_firstChar] at hm
      cases hm
  rw [List.append_assoc, closeFrom_append hc, closeFrom_alike ha, closeFrom_idle he]
  rfl

/-- Behind its blanks a quoted literal stands between its quote marks. -/
theorem trim_quotedLiteral {blanks : List Char} {mark : Char} (hb : allBlank blanks = true)
    (hm : isQuoteMark mark = true) (literal : List Char) :
  trim (quotedLiteral blanks mark literal) = mark :: (literal ++ [mark])
  := by
  have hk := isBlank_of_isQuoteMark hm
  have ht : trim (blanks ++ ((mark :: (literal ++ [mark])) ++ []))
      = trim (mark :: (literal ++ [mark])) := trim_blanks hb rfl _
  have hs : quotedLiteral blanks mark literal
      = blanks ++ ((mark :: (literal ++ [mark])) ++ []) := by
    simp [quotedLiteral]
  rw [hs, ht]
  apply trim_of_ends
  · exact hk
  · rw [← List.cons_append, List.getLast?_concat]
    exact hk

/-- A quoted literal loses its quote marks. -/
theorem unquote_quoted {mark : Char} (hm : isQuoteMark mark = true) (literal : List Char) :
  unquote (mark :: (literal ++ [mark])) = literal
  := by
  simp [unquote, hm]

/-! ### Reading -/

/-- A condition with a literal in quote marks is read in its parts, in every wrapper. -/
theorem parse_quotedLiteral {name property blanks blanks' literal content : List Char}
    {operator : Operator} {mark : Char} (hd : '.' ∉ name) (hn : '[' ∉ name)
    (hp : IsNestedPath property)
    (he : operator = .equal → property.getLast?.any beginsOperator = false)
    (hb : allBlank blanks = true) (hb' : allBlank blanks' = true)
    (hm : isQuoteMark mark = true) (hl : mark ∉ literal)
    (hw : Wrapped (conditionHead [] property blanks operator ++ quotedLiteral blanks' mark literal)
      content) :
  parse (name ++ '[' :: (content ++ [']']))
      = [.mk (String.ofList name) (some (.predicate (.ofCondition ⟨property, operator, literal⟩)))]
    ∧ ((start 0).run (name ++ '[' :: (content ++ [']']))).Settled
  := by
  have hc : closeFrom (start 1) (content ++ [']']) = some (content, []) := by
    obtain ⟨opening, ending, rfl, ho, hi⟩ := hw.exists_idle
    have hs : opening ++ (conditionHead [] property blanks operator
          ++ quotedLiteral blanks' mark literal ++ ending)
        = conditionHead opening property blanks operator
          ++ quotedLiteral blanks' mark literal ++ ending := by
      simp [conditionHead]
    rw [hs]
    exact closeFrom_quotedLiteral ho hp hb hb' hm hl hi
  have hu : unwrap (trim content) = some (conditionHead [] property blanks operator
      ++ quotedLiteral blanks' mark literal) := by
    apply hw.unwrap_trim
    show (conditionHead [] property blanks operator ++ (blanks' ++ [mark] ++ literal
      ++ [mark])).getLast?.any isBlank = false
    rw [← List.append_assoc, List.getLast?_concat]
    exact isBlank_of_isQuoteMark hm
  have hr : readCondition (trim content) = some ⟨property, operator, literal⟩ := by
    have ht := trim_quotedLiteral hb' hm literal
    rw [readCondition_of_unwrap hu hp he hb (ht ▸ List.cons_ne_nil _ _), ht, unquote_quoted hm]
  refine ⟨?_, settled_closed hn hc⟩
  rw [parse_closed hd hn hc, Indexer.ofContent, hr]

/-- Every quoted predicate is read with its literal intact.  The path inside an element is any
nested path, which must not end in the beginning of an operator if `==` follows; the literal is any
text without the quote mark around it. -/
theorem parsePath_quoted {name property before after literal body : String} {operator : Operator}
    {mark : Char} (hd : '.' ∉ name.toList) (hn : '[' ∉ name.toList)
    (hp : IsNestedPath property.toList)
    (he : operator = .equal → property.toList.getLast?.any beginsOperator = false)
    (hb : allBlank before.toList = true) (ha : allBlank after.toList = true)
    (hm : isQuoteMark mark = true) (hl : mark ∉ literal.toList)
    (hw : Wrapped ("@." ++ property ++ before ++ operator.text ++ after ++ String.singleton mark
      ++ literal ++ String.singleton mark).toList body.toList) :
  parsePath (name ++ "[" ++ body ++ "]")
    = [.mk name (some (.predicate (.mk property (parsePath property) operator literal)))]
  := by
  have hs : (name ++ "[" ++ body ++ "]").toList
      = name.toList ++ '[' :: (body.toList ++ [']']) := by
    simp [String.toList_append]
  have hc : ("@." ++ property ++ before ++ operator.text ++ after ++ String.singleton mark
        ++ literal ++ String.singleton mark).toList
      = conditionHead [] property.toList before.toList operator
        ++ quotedLiteral after.toList mark literal.toList := by
    simp [String.toList_append, conditionHead, quotedLiteral]
  rw [hc] at hw
  rw [parsePath, hs, (parse_quotedLiteral hd hn hp he hb ha hm hl hw).1, Predicate.ofCondition]
  simp only [String.ofList_toList]
  rfl

/-- A nested predicate in the path, a bracket, an operator and the other quote mark in the
literal, and blanks everywhere. -/
theorem parsePath_quoted_enclosed :
  IsNestedPath "tags[@.k=='a]=']".toList ∧ '"' ∉ "x]=='y'. (z ".toList
    ∧ Wrapped "@.tags[@.k=='a]='] !=\t\"x]=='y'. (z \"".toList
      " ? ( @.tags[@.k=='a]='] !=\t\"x]=='y'. (z \") ".toList
    ∧ parsePath "rows[ ? ( @.tags[@.k=='a]='] !=\t\"x]=='y'. (z \") ]"
      = [.mk "rows" (some (.predicate (.mk "tags[@.k=='a]=']" (parsePath "tags[@.k=='a]=']")
        .notEqual "x]=='y'. (z ")))]
  := by
  have hp : IsNestedPath "tags[@.k=='a]=']".toList := by decide +kernel
  have hl : '"' ∉ "x]=='y'. (z ".toList := by decide +kernel
  have hs : "@.tags[@.k=='a]='] !=\t\"x]=='y'. (z \"" = "@." ++ "tags[@.k=='a]=']" ++ " "
      ++ Operator.notEqual.text ++ "\t" ++ String.singleton '"' ++ "x]=='y'. (z "
      ++ String.singleton '"' := by
    decide +kernel
  have ht : "rows[ ? ( @.tags[@.k=='a]='] !=\t\"x]=='y'. (z \") ]"
      = "rows" ++ "[" ++ " ? ( @.tags[@.k=='a]='] !=\t\"x]=='y'. (z \") " ++ "]" := by
    decide +kernel
  have hw : Wrapped "@.tags[@.k=='a]='] !=\t\"x]=='y'. (z \"".toList
      " ? ( @.tags[@.k=='a]='] !=\t\"x]=='y'. (z \") ".toList := by
    have hb : " ? ( @.tags[@.k=='a]='] !=\t\"x]=='y'. (z \") ".toList
        = [' '] ++ ('?' :: [' '] ++ '(' :: [' ']
          ++ ("@.tags[@.k=='a]='] !=\t\"x]=='y'. (z \"".toList ++ ([] ++ ')' :: [' ']))) := by
      decide +kernel
    rw [hb]
    exact .enclosed (by decide) (by decide) (by decide) rfl (by decide)
  refine ⟨hp, hl, hw, ?_⟩
  rw [hs] at hw
  rw [ht]
  apply parsePath_quoted (by decide +kernel) (by decide +kernel) hp _ (by decide +kernel)
    (by decide +kernel) (by decide) hl hw
  intro h
  cases h

end JsonAudit
