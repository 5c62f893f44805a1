import JsonAudit.Proofs.Path.Indices
import JsonAudit.Proofs.Path.Navigation
import JsonAudit.Proofs.Session.Operations

/-!
# What a key names

A key is the path of a location joined with a path from there.  In a document whose keys can stand
in a path, `resolve_qualify` says what a key of a reached location names in the document: what the
path names from the location, unless two brackets follow each other in the key.  A component has
one bracket only, so that nothing is found under such a key; this is so at
`resolve_qualify_nested_array`.

In such a document all steps are plain (`Json.HasPlainKeys.isPlain`), and they can be spelled if no
array is too long (`Json.Navigable.isSpelled`).
-/

namespace JsonAudit

open Scanner

/-! ### Documents and steps -/

/-- The key can stand in a path as a component of its own. -/
def IsComponent (key : String) : Prop := key ≠ "" ∧ '.' ∉ key.toList ∧ '[' ∉ key.toList

/-- All keys of objects in the document can stand in a path. -/
def Json.HasPlainKeys (document : Json) : Prop :=
  ∀ members, document.Part (.object members) → ∀ key ∈ Keyed.names members, IsComponent key

/-- The path to every part of the document can be written: objects have distinct keys that can
stand in a path, and no array is longer than an index can say. -/
structure Json.Navigable (document : Json) : Prop where
  distinct : document.DistinctNames
  components : document.HasPlainKeys
  lengths : ∀ items, document.Part (.array items) → items.length ≤ indexLimit

/-- The step has an index, or a key that can stand in a path. -/
def Step.IsPlain : Step → Prop
  | key name => IsComponent name
  | index _ => True

/-- The step is one that a path can spell: a plain one, with an index that can be written. -/
structure Step.IsSpelled (step : Step) : Prop where
  plain : step.IsPlain
  written : ∀ i, step = .index i → i ≤ indexLimit

/-- A key is spelled if it can stand in a path. -/
theorem Step.isSpelled_key {name : String} (h : IsComponent name) :
  (key name).IsSpelled
  := ⟨h, nofun⟩

/-- An index is spelled if it is not too large. -/
theorem Step.isSpelled_index {i : Nat} (h : i ≤ indexLimit) :
  (index i).IsSpelled
  := ⟨trivial, fun _ hi => Step.index.inj hi ▸ h⟩

/-- The step has an index. -/
def Step.isIndex : Step → Bool
  | key _ => false
  | index _ => true

/-- The text of a plain step is not empty. -/
theorem Step.IsPlain.text_ne_empty {step : Step} (h : step.IsPlain) :
  step.text ≠ ""
  := by
  cases step with
  | key name => exact h.1
  | index i => exact ne_empty_of_opensBracket (opensBracket_index i)

/-- A path that begins with a plain step begins with a bracket if the step has an index. -/
theorem Step.IsPlain.opensBracket_append {step : Step} (h : step.IsPlain) (rest : String) :
  opensBracket (step.text ++ rest) = step.isIndex
  := by
  rw [JsonAudit.opensBracket_append h.text_ne_empty]
  cases step with
  | key name => apply opensBracket_of_simple h.2.2
  | index i => apply opensBracket_index i

/-- The steps to a part of a document are plain if all its keys can stand in a path. -/
theorem Json.HasPlainKeys.isPlain {document part : Json} (h : document.HasPlainKeys)
    {steps : List Step} (hs : document.descend steps = some part) :
  ∀ step ∈ steps, step.IsPlain
  := by
  induction steps generalizing document with
  | nil => nofun
  | cons step rest ih =>
    obtain ⟨inner, hc, hr⟩ := Option.bind_eq_some_iff.mp hs
    have hi : inner.HasPlainKeys := fun members hm => h members ((part_of_child hc).trans hm)
    refine List.forall_mem_cons.mpr ⟨?_, ih hi hr⟩
    cases step with
    | key name =>
      cases document with
      | object members => apply h members .self name (Keyed.mem_names_of_find? hc)
      | _ => cases hc
    | index i => trivial

/-- An index at which there is an element can be written if no array is too long. -/
theorem Json.index_le_of_child {document part : Json}
    (h : ∀ items, document.Part (.array items) → items.length ≤ indexLimit) {i : Nat}
    (hc : document.child (.index i) = some part) :
  i ≤ indexLimit
  := by
  cases document with
  | array items =>
    obtain ⟨hi, -⟩ := List.getElem?_eq_some_iff.mp hc
    exact Nat.le_trans (Nat.le_of_lt hi) (h items .self)
  | _ => cases hc

/-- All indices among the steps to a part can be written if no array is too long. -/
theorem Json.index_le_of_descend {document part : Json}
    (h : ∀ items, document.Part (.array items) → items.length ≤ indexLimit) {steps : List Step}
    (hd : document.descend steps = some part) {i : Nat} (hi : Step.index i ∈ steps) :
  i ≤ indexLimit
  := by
  obtain ⟨before, after, rfl⟩ := List.append_of_mem hi
  rw [descend_append] at hd
  obtain ⟨inner, hb, ha⟩ := Option.bind_eq_some_iff.mp hd
  obtain ⟨item, hc, -⟩ := Option.bind_eq_some_iff.mp ha
  apply index_le_of_child _ hc
  intro items hp
  apply h items ((part_of_descend hb).trans hp)

/-- The steps to a part of a navigable document are spelled. -/
theorem Json.Navigable.isSpelled {document part : Json} (h : document.Navigable)
    {steps : List Step} (hs : document.descend steps = some part) {step : Step}
    (hm : step ∈ steps) :
  step.IsSpelled
  where
  plain := h.components.isPlain hs step hm
  written := by
    rintro i rfl
    apply index_le_of_descend h.lengths hs hm

/-! ### One step and a path behind it -/

theorem parsePath_empty :
  parsePath "" = []
  := parse_eq_map []

/-- A key that can stand in a path is a segment of its own. -/
theorem parse_key {name : String} (h : IsComponent name) :
  parse name.toList = [.mk name none]
  := by
  obtain ⟨hn, hd, hb⟩ := h
  rw [parse_name (mt String.toList_eq_nil_iff.mp hn) hd hb, String.ofList_toList]

/-- A text that is one segment and leaves the scanner settled stays one before every path that is
joined to it by a dot. -/
theorem parse_joinPath_of_no_bracket {text : String} {segment : Segment} (ht : text ≠ "")
    (hp : parse text.toList = [segment]) (hs : ((start 0).run text.toList).Settled)
    {path : String} (ho : opensBracket path = false) :
  parsePath (joinPath text path) = segment :: parsePath path
  := by
  by_cases he : path = ""
  · rw [he, joinPath_empty_right, parsePath_empty]
    exact hp
  · have hl : (text ++ "." ++ path).toList = text.toList ++ '.' :: path.toList := by
      simp [String.toList_append]
    rw [joinPath_of_no_bracket ht he ho, parsePath, hl, parse_append_dot hs, hp]
    rfl

/-- A key stays a segment of its own before every path that is joined to it by a dot. -/
theorem parse_key_join {name : String} (h : IsComponent name) {path : String}
    (ho : opensBracket path = false) :
  parsePath (joinPath name path) = .mk name none :: parsePath path
  := parse_joinPath_of_no_bracket h.1 (parse_key h) (settled_start.run h.2.2) ho

/-- A path that begins with a bracket begins with a segment without a property; directly after a
key it gives the key its indexer. -/
theorem parse_key_bracket {name : String} (h : IsComponent name) {path : String}
    (hp : opensBracket path = true) :
  ∃ indexer rest, parsePath path = .mk "" (some indexer) :: rest
    ∧ parsePath (name ++ path) = .mk name (some indexer) :: rest
  := by
  obtain ⟨hn, hd, hb⟩ := h
  obtain ⟨text, ht⟩ := toList_of_opensBracket hp
  obtain ⟨first, others, hf⟩ := pieces_of_bracket text
  refine ⟨.ofBracket (.ofRest first),
    (others.filter fun piece => !piece.isEmpty).map Segment.ofComponent, ?_, ?_⟩
  · rw [parsePath, parse_eq_map, ht, components, hf]
    show Segment.ofComponent ([] ++ '[' :: first) :: _ = _
    rw [Segment.ofComponent, splitBracket_of_bracket List.not_mem_nil]
    rfl
  · have hc : piecesFrom ((start 0).run name.toList) ('[' :: text) = ('[' :: first) :: others := by
      rw [piecesFrom_of_settled (settled_start.run hb), hf]
    rw [parsePath, parse_eq_map, String.toList_append, ht,
      components_append_of_no_dot hd (mt String.toList_eq_nil_iff.mp hn) hc, List.map_cons,
      Segment.ofComponent, splitBracket_of_bracket hb, String.ofList_toList]
    rfl

/-- The text of an index is its number between brackets. -/
theorem toList_index (i : Nat) :
  (Step.index i).text.toList = '[' :: ((Nat.repr i).toList ++ [']'])
  := by
  simp [Step.text, String.toList_append]

/-- An index stays a segment of its own before every path that is joined to it by a dot. -/
theorem parse_index_join {i : Nat} (h : i ≤ indexLimit) {path : String}
    (ho : opensBracket path = false) :
  parsePath (joinPath (Step.index i).text path) = .mk "" (some (.index i)) :: parsePath path
  := by
  apply parse_joinPath_of_no_bracket (ne_empty_of_opensBracket (Step.opensBracket_index i)) _ _ ho
  · rw [toList_index, parse_index h]
  · rw [toList_index]
    apply settled_index

/-- Directly after an index a bracket makes the component malformed. -/
theorem parse_index_bracket (i : Nat) {path : String} (hp : opensBracket path = true) :
  ∃ raw, Segment.mk "" (some (.malformed raw)) ∈ parsePath ((Step.index i).text ++ path)
  := by
  obtain ⟨text, ht⟩ := toList_of_opensBracket hp
  obtain ⟨first, others, hf⟩ := pieces_of_bracket text
  have hc : piecesFrom ((start 0).run ('[' :: ((Nat.repr i).toList ++ [']']))) ('[' :: text)
      = ('[' :: first) :: others := by
    rw [piecesFrom_of_settled (settled_index i), hf]
  have hl : '[' :: ((Nat.repr i).toList ++ [']']) ++ '[' :: first
      = '[' :: ((Nat.repr i).toList ++ ']' :: '[' :: first) := by
    simp
  refine ⟨String.ofList ((Nat.repr i).toList ++ ']' :: '[' :: first), ?_⟩
  rw [parsePath, parse_eq_map, String.toList_append, toList_index, ht,
    components_append_of_no_dot (dot_not_mem_index i) (List.cons_ne_nil _ _) hc, List.map_cons,
    Segment.ofComponent, hl, splitBracket_index, if_neg (List.cons_ne_nil _ _)]
  apply List.mem_cons_self

/-- Without a property a segment stays at the node. -/
theorem enterProperty_empty (node : Json) :
  enterProperty "" node = .pure (some (node, []))
  := by
  unfold enterProperty
  rw [if_pos rfl]

/-- A walk that begins with a key goes on from the member as it does without the key. -/
theorem track_key {document part : Json} {name : String} (hn : name ≠ "")
    (h : document.child (.key name) = some part) (indexer : Option Indexer)
    (rest : List Segment) :
  (track (.mk name indexer :: rest) document).value
    = (Entered.behind (track (.mk "" indexer :: rest) part) [.key name]).value
  := by
  have he : (enterProperty name document).value = some (part, [.key name]) := by
    cases document with
    | object members =>
      have hf : Keyed.find? name members = some part := h
      simp only [enterProperty, if_neg hn, hf]
      rfl
    | _ => cases h
  rw [track_cons, track_cons, Entered.andThen_behind, Logged.value_andThen, Logged.value_andThen]
  cases indexer with
  | none =>
    rw [Segment.enter, Segment.enter, he]
    simp [enterProperty_empty, Entered.behind, Function.comp_def]
  | some indexer =>
    have hi : (indexer.enter name part).value = (indexer.enter "" part).value := by
      cases indexer <;> simp [Indexer.enter]
    rw [Segment.enter, Segment.enter, Logged.value_andThen, Logged.value_andThen, he]
    simp only [Option.bind_some, Logged.value_map, hi, enterProperty_empty, Logged.value_pure]
    cases (indexer.enter "" part).value with
    | none => rfl
    | some found => simp [Entered.behind, Function.comp_def]

/-- A walk that begins with an index goes on from the element. -/
theorem track_index {document part : Json} {i : Nat} (h : document.child (.index i) = some part)
    (rest : List Segment) :
  (track (.mk "" (some (.index i)) :: rest) document).value
    = (Entered.behind (track rest part) [.index i]).value
  := by
  cases document with
  | array items =>
    have hi : items[i]? = some part := h
    rw [track_cons, Logged.value_andThen, Segment.enter, Logged.value_andThen]
    simp [enterProperty_empty, Indexer.enter, enterIndex, hi, entered]
  | _ => cases h

/-- What a path finds behind a step is found along the step and the path in one, unless the step
is an index and the path begins with a bracket; then nothing is found. -/
theorem value_track_step {document part : Json} {step : Step} (hs : step.IsSpelled)
    (h : document.child step = some part) (path : String) :
  (track (parsePath (joinPath step.text path)) document).value
    = if (step.isIndex && opensBracket path) = true then none
      else (Entered.behind (track (parsePath path) part) [step]).value
  := by
  cases step with
  | key name =>
    have hn : IsComponent name := hs.plain
    rw [Step.isIndex, Bool.false_and, if_neg nofun, Step.text]
    cases ho : opensBracket path with
    | true =>
      obtain ⟨indexer, rest, hr, hk⟩ := parse_key_bracket hn ho
      rw [joinPath_of_bracket ho, hk, hr]
      apply track_key hn.1 h
    | false =>
      rw [parse_key_join hn ho, track_key hn.1 h, track_cons, Segment.enter, enterProperty_empty,
        Logged.pure_andThen]
      show (Entered.behind (Entered.behind (track (parsePath path) part) []) _).value = _
      rw [Entered.behind_nil]
  | index i =>
    cases ho : opensBracket path with
    | true =>
      obtain ⟨raw, hm⟩ := parse_index_bracket i ho
      rw [joinPath_of_bracket ho, value_track_of_malformed hm]
      rfl
    | false =>
      rw [parse_index_join (hs.written i rfl) ho, track_index h]
      rfl

/-! ### A position and a path behind it -/

/-- No bracket follows another where the path stands behind the position: neither an index another
index, nor a bracket that begins the path an index that ends the position. -/
def isSpaced (path : String) : List Step → Bool
  | [] => true
  | [.index _] => !opensBracket path
  | .index _ :: .index _ :: _ => false
  | _ :: rest => isSpaced path rest

/-- A path that is not blank does not become so behind another one. -/
theorem isBlankPath_joinPath (base : String) {path : String} (h : isBlankPath path = false) :
  isBlankPath (joinPath base path) = false
  := by
  by_cases hb : base = ""
  · rw [hb, joinPath_empty_left, h]
  have hne : path ≠ "" := by
    rintro rfl
    cases h
  cases ho : opensBracket path with
  | true =>
    rw [joinPath_of_bracket ho, isBlankPath, allBlank, String.toList_append, List.all_append]
    have ha : path.toList.all isBlank = false := h
    rw [ha, Bool.and_false]
  | false =>
    rw [joinPath_of_no_bracket hb hne ho]
    apply isBlankPath_append_dot

/-- A position that begins with a step, and a path behind it, are spaced if the rest is and no
bracket follows the step if it is an index. -/
theorem isSpaced_cons {step : Step} {rest : List Step} (h : ∀ other ∈ rest, other.IsPlain)
    (path : String) :
  isSpaced path (step :: rest)
    = (!(step.isIndex && opensBracket (joinPath (renderPath rest) path)) && isSpaced path rest)
  := by
  cases rest with
  | nil =>
    show _ = (!(step.isIndex && opensBracket (joinPath "" path)) && true)
    rw [joinPath_empty_left, Bool.and_true]
    cases step <;> rfl
  | cons other tail =>
    have hp := h other List.mem_cons_self
    have hb : opensBracket (joinPath (renderPath (other :: tail)) path) = other.isIndex := by
      obtain ⟨text, ht⟩ := (exists_joinPath_eq_append other.text _).resolve_left hp.text_ne_empty
      rw [renderPath_cons, joinPath_assoc, ht, hp.opensBracket_append]
    rw [hb]
    cases step <;> cases other <;> simp [isSpaced, Step.isIndex]

/-- What a path finds at a position is found along the path of the position and that path in one,
if they are spaced; otherwise nothing is found. -/
theorem value_track_renderPath {document part : Json} {steps : List Step}
    (hs : ∀ step ∈ steps, step.IsSpelled) (h : document.descend steps = some part)
    (path : String) :
  (track (parsePath (joinPath (renderPath steps) path)) document).value
    = if isSpaced path steps = true then
        (Entered.behind (track (parsePath path) part) steps).value
      else none
  := by
  induction steps generalizing document with
  | nil =>
    cases h
    rw [isSpaced, if_pos rfl, Entered.behind_nil]
    show (track (parsePath (joinPath "" path)) _).value = _
    rw [joinPath_empty_left]
  | cons step rest ih =>
    obtain ⟨inner, hc, hd⟩ := Option.bind_eq_some_iff.mp h
    obtain ⟨hstep, hrest⟩ := List.forall_mem_cons.mp hs
    have hp := fun other ho => (hrest other ho).plain
    rw [renderPath_cons, joinPath_assoc, value_track_step hstep hc, isSpaced_cons hp]
    cases step.isIndex && opensBracket (joinPath (renderPath rest) path) with
    | true => rfl
    | false =>
      rw [if_neg nofun, Bool.not_false, Bool.true_and, Entered.value_behind, ih hrest hd]
      split
      · rw [← Entered.value_behind, Entered.behind_behind]
        rfl
      · rfl

/-- What a path that is not blank traces at a position is traced along the path of the position and
that path in one, if they are spaced; otherwise nothing is traced. -/
theorem value_trace_renderPath {document part : Json} {steps : List Step}
    (hs : ∀ step ∈ steps, step.IsSpelled) (h : document.descend steps = some part)
    {path : String} (hp : isBlankPath path = false) :
  (trace (joinPath (renderPath steps) path) document).value
    = if isSpaced path steps = true then (Entered.behind (trace path part) steps).value else none
  := by
  rw [trace_of_not_blank (isBlankPath_joinPath _ hp), trace_of_not_blank hp,
    value_track_renderPath hs h]

/-! ### Reached locations -/

/-- The locations that are reached from a document: its root, and from a reached location what is
located, what a session navigates to, and what an iteration visits. -/
inductive Reached (document : Json) : Location → Prop where
  | root : Reached document (.root document)
  | locate {l found : Location} {path : String} :
    Reached document l → (l.locate path).value = some found → Reached document found
  | navigate {l found : Location} {path : String} {s : Session} :
    Reached document l → (s.navigate l path).answer = .ok found → Reached document found
  | child {l child : Location} :
    Reached document l → child ∈ l.children → Reached document child

/-- A reached location is at a position in the document. -/
theorem Reached.isAt {document : Json} (hd : document.DistinctNames) {l : Location}
    (hl : Reached document l) :
  ∃ steps, l.IsAt document steps
  := by
  induction hl with
  | root => exact ⟨[], Location.isAt_root document⟩
  | locate _ h ih =>
    obtain ⟨steps, hs⟩ := ih
    obtain ⟨more, hm⟩ := hs.locate h
    exact ⟨steps ++ more, hm⟩
  | navigate _ h ih =>
    obtain ⟨steps, hs⟩ := ih
    obtain ⟨more, hm⟩ := hs.locate (Session.locate_of_navigate h).1
    exact ⟨steps ++ more, hm⟩
  | child _ h ih =>
    obtain ⟨steps, hs⟩ := ih
    obtain ⟨step, hc⟩ := hs.child hd h
    exact ⟨steps ++ [step], hc⟩

/-- The key of a path at a reached location names in the document what the path names at the
location, with the same canonical path, if the two are spaced, and nothing otherwise. -/
theorem resolve_qualify {document : Json} (hd : document.Navigable) {l : Location}
    (hl : Reached document l) {path : String} (hp : isBlankPath path = false) :
  (∃ steps, l.IsAt document steps)
    ∧ ∀ steps, l.IsAt document steps →
      if isSpaced path steps = true then
        (resolve (l.qualify path) document).value = (resolve path l.value).value
          ∧ (locate (l.qualify path) document).value = (l.locate path).value
      else
        (resolve (l.qualify path) document).value = none
  := by
  refine ⟨hl.isAt hd.distinct, ?_⟩
  intro steps hs
  have ht := value_trace_renderPath (fun _ => hd.isSpelled hs.value) hs.value hp
  rw [← hs.path] at ht
  split
  · rename_i hsp
    rw [if_pos hsp] at ht
    apply locate_of_trace_behind hs.path ht
  · rename_i hsp
    rw [if_neg hsp] at ht
    rw [Location.qualify, resolve_eq_trace, Logged.value_map, ht]
    rfl

/-- A document with an array in an array. -/
def nestedArray : Json := .object [("a", .array [.array [.bool true]])]

/-- The parts of the document are itself, its two arrays and the value in them. -/
theorem part_nestedArray {part : Json} (h : nestedArray.Part part) :
  part = nestedArray ∨ part = .array [.array [.bool true]] ∨ part = .array [.bool true]
    ∨ part = .bool true
  := by
  induction h with
  | self => exact .inl rfl
  | element _ hm ih =>
    rcases ih with h | h | h | h <;> cases h
    · exact .inr (.inr (.inl (List.mem_singleton.mp hm)))
    · exact .inr (.inr (.inr (List.mem_singleton.mp hm)))
  | member _ hm ih =>
    rcases ih with h | h | h | h <;> cases h
    cases List.mem_singleton.mp hm
    exact .inr (.inl rfl)

theorem navigable_nestedArray :
  nestedArray.Navigable
  := by
  constructor
  · intro members h
    rcases part_nestedArray h with h | h | h | h <;> cases h
    decide
  · intro members h
    rcases part_nestedArray h with h | h | h | h <;> cases h
    intro key hk
    cases List.mem_singleton.mp hk
    rw [IsComponent]
    decide
  · intro items h
    rcases part_nestedArray h with h | h | h | h <;> cases h
    · decide
    · decide

/-- The key of `[0]` at `a` names the inner array. -/
theorem resolve_qualify_outer_array :
  nestedArray.Navigable ∧ Reached nestedArray ⟨"a", .array [.array [.bool true]]⟩
    ∧ isBlankPath "[0]" = false
    ∧ (resolve (Location.qualify ⟨"a", .array [.array [.bool true]]⟩ "[0]") nestedArray).value
      = some (.array [.bool true])
  := by
  have hp : isBlankPath "[0]" = false := by decide +kernel
  have hi : parsePath "[0]" = [.mk "" (some (.index 0))] := by decide +kernel
  have hl : Reached nestedArray ⟨"a", .array [.array [.bool true]]⟩ := by
    apply Reached.child Reached.root
    apply List.mem_cons_self
  refine ⟨navigable_nestedArray, hl, hp, ?_⟩
  have hs : isSpaced "[0]" [.key "a"] = true := rfl
  have ha := (resolve_qualify navigable_nestedArray hl hp).2 [.key "a"] ⟨rfl, rfl⟩
  rw [if_pos hs] at ha
  rw [ha.1, resolve, hp, hi]
  rfl

/-- The key of `[0]` at `a[0]` has two brackets in one component and names nothing, although the
path names an element there. -/
theorem resolve_qualify_nested_array :
  nestedArray.Navigable ∧ Reached nestedArray ⟨"a[0]", .array [.bool true]⟩
    ∧ isBlankPath "[0]" = false
    ∧ (resolve "[0]" (.array [.bool true])).value = some (.bool true)
    ∧ (resolve (Location.qualify ⟨"a[0]", .array [.bool true]⟩ "[0]") nestedArray).value = none
  := by
  have hp : isBlankPath "[0]" = false := by decide +kernel
  have hi : parsePath "[0]" = [.mk "" (some (.index 0))] := by decide +kernel
  have hk : parsePath "a[0][0]" = [.mk "a" (some (.malformed "0][0]"))] := by decide +kernel
  have hl : Reached nestedArray ⟨"a[0]", .array [.bool true]⟩ := by
    apply Reached.child (Reached.child Reached.root List.mem_cons_self)
    apply List.mem_cons_self
  refine ⟨navigable_nestedArray, hl, hp, ?_, ?_⟩
  · rw [resolve, hp, hi]
    rfl
  · show (resolve "a[0][0]" nestedArray).value = none
    rw [resolve, hk]
    rfl

end JsonAudit
