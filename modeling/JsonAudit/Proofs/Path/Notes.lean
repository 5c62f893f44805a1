import JsonAudit.Path.Resolve
import JsonAudit.Proofs.Path.Walking

/-!
# The notes of a walk

A walk that leads nowhere ends at one segment, the first that selects nothing, and its last note
says what that segment did not find.  `segment.Fails node note` is that relation, stated with the
steps of a value.  A segment without a predicate leaves a note only if it fails.  A predicate
leaves the notes of its own walks in the elements that it tries, up to the first that it accepts,
and one more if it accepts none.  `notes_of_resolve` puts this together for a path.
-/

namespace JsonAudit

/-! ### Failures -/

/-- The steps to the property of that name, none if the name is empty. -/
def nameSteps (name : String) : List Step := if name = "" then [] else [.key name]

/-- The note says what the segment does not find in the node: the property; an array below it for
the predicate; an element with the index; or a meaning of the bracket text. -/
inductive Segment.Fails : Segment → Json → Note → Prop where
  | missingProperty {name : String} {indexer : Option Indexer} {members : List (String × Json)}
      (hn : name ≠ "") (h : (Json.object members).child (.key name) = none) :
    Fails (.mk name indexer) (.object members) (.missingProperty name)
  | notObject {name : String} {indexer : Option Indexer} {node : Json}
      (hn : name ≠ "") (h : ∀ members, node ≠ .object members) :
    Fails (.mk name indexer) node (.notObject name)
  | notArray {name : String} {p : Predicate} {node inner : Json}
      (hi : node.descend (nameSteps name) = some inner) (h : ∀ items, inner ≠ .array items) :
    Fails (.mk name (some (.predicate p))) node (.notArray p)
  | notAddressable {name : String} {i : Nat} {node inner : Json}
      (hi : node.descend (nameSteps name) = some inner) (h : inner.child (.index i) = none) :
    Fails (.mk name (some (.index i))) node (.notAddressable i)
  | malformed {name raw : String} {node inner : Json}
      (hi : node.descend (nameSteps name) = some inner) :
    Fails (.mk name (some (.malformed raw))) node
      (.malformed raw (.mk name (some (.malformed raw))))

/-- A property that is there is entered without a note. -/
theorem enterProperty_of_descend {name : String} {node inner : Json}
    (h : node.descend (nameSteps name) = some inner) :
  enterProperty name node = .pure (some (inner, nameSteps name))
  := by
  by_cases hn : name = ""
  · subst hn
    cases h
    rfl
  · rw [nameSteps, if_neg hn] at h ⊢
    rw [Json.descend_singleton] at h
    cases node with
    | object members =>
      have hf : Keyed.find? name members = some inner := h
      simp only [enterProperty, if_neg hn, hf]
      rfl
    | _ => cases h

/-- A property that is not there is noted, and the segment fails. -/
theorem fails_of_no_property {name : String} {node : Json}
    (h : node.descend (nameSteps name) = none) (indexer : Option Indexer) :
  ∃ note, (Segment.mk name indexer).Fails node note ∧ enterProperty name node = .note note none
  := by
  by_cases hn : name = ""
  · subst hn
    cases h
  · rw [nameSteps, if_neg hn, Json.descend_singleton] at h
    cases node with
    | object members =>
      have hf : Keyed.find? name members = none := h
      refine ⟨.missingProperty name, .missingProperty hn h, ?_⟩
      simp only [enterProperty, if_neg hn, hf]
    | _ =>
      refine ⟨.notObject name, .notObject hn nofun, ?_⟩
      simp only [enterProperty, if_neg hn]

/-- An index leads to its element, or notes that there is none. -/
theorem enterIndex_eq (i : Nat) (node : Json) :
  enterIndex i node
    = match node.child (.index i) with
      | some item => entered item (.index i)
      | none => .note (.notAddressable i) none
  := by
  cases node <;> rfl

/-- A predicate notes that what it is applied to is not an array. -/
theorem enterFirst_of_not_array {node : Json} (h : ∀ items, node ≠ .array items)
    (p : Predicate) (accepts : Json → Logged Note Bool) :
  enterFirst p accepts node = .note (.notArray p) none
  := by
  cases node with
  | array items => exact absurd rfl (h items)
  | _ => rfl

/-! ### The notes of a predicate -/

namespace Predicate

/-- The notes of the predicate's walks in the items, one after the other. -/
def notesIn (p : Predicate) (items : List Json) : List Note :=
  items.flatMap fun item => (select p.segments item).entries

/-- The notes in two lists of elements are those in one and then in the other. -/
theorem notesIn_append (p : Predicate) (items others : List Json) :
  p.notesIn (items ++ others) = p.notesIn items ++ p.notesIn others
  := List.flatMap_append

theorem notesIn_singleton (p : Predicate) (item : Json) :
  p.notesIn [item] = (select p.segments item).entries
  := List.flatMap_singleton ..

/-- A predicate notes why its path selects nothing in an element. -/
theorem entries_accepts (p : Predicate) (item : Json) :
  (p.accepts item).entries = (select p.segments item).entries
  := by
  cases p
  rfl

/-- The predicate accepts none of the items. -/
def RejectsAll (p : Predicate) (items : List Json) : Prop :=
  ∀ item ∈ items, (p.accepts item).value = false

/-- The predicate accepts the item that stands behind the missed ones, and none of those. -/
structure FirstMatch (p : Predicate) (items missed : List Json) (item : Json)
    (rest : List Json) : Prop where
  split : items = missed ++ item :: rest
  missed : p.RejectsAll missed
  accepted : (p.accepts item).value = true

/-- A predicate has a first match, or rejects all elements. -/
theorem firstMatch_or_rejectsAll (p : Predicate) (items : List Json) :
  (∃ missed item rest, p.FirstMatch items missed item rest) ∨ p.RejectsAll items
  := by
  cases hf : items.find? fun item => (p.accepts item).value with
  | none =>
    right
    intro item hm
    simpa using List.find?_eq_none.mp hf item hm
  | some item =>
    left
    obtain ⟨ha, missed, rest, hs, hm⟩ := List.find?_eq_some_iff_append.mp hf
    refine ⟨missed, item, rest, hs, ?_, ha⟩
    intro other ho
    simpa using hm other ho

variable {p : Predicate} {items missed rest : List Json} {item : Json}

/-- The items that are not accepted are passed over, and their notes are kept. -/
theorem RejectsAll.firstAccepted_append (h : p.RejectsAll missed) (i : Nat) (rest : List Json) :
  firstAccepted p.accepts i (missed ++ rest)
    = ⟨p.notesIn missed ++ (firstAccepted p.accepts (i + missed.length) rest).entries,
        (firstAccepted p.accepts (i + missed.length) rest).value⟩
  := by
  induction missed generalizing i with
  | nil => rfl
  | cons item others ih =>
    have hi : (p.accepts item).value = false := h item List.mem_cons_self
    have ho := ih (fun other hm => h other (List.mem_cons_of_mem _ hm)) (i + 1)
    rw [List.cons_append, firstAccepted, Logged.bind, hi]
    simp only [ho, notesIn, List.flatMap_cons, List.append_assoc, List.length_cons,
      p.entries_accepts, Nat.add_assoc, Nat.add_comm 1]

/-- A predicate that accepts an item selects it, with the notes up to it and none from behind. -/
theorem FirstMatch.enterFirst_eq (h : p.FirstMatch items missed item rest) :
  enterFirst p p.accepts (.array items)
    = ⟨p.notesIn (missed ++ [item]), some (item, [.index missed.length])⟩
  := by
  have hf : firstAccepted p.accepts (0 + missed.length) (item :: rest)
      = ⟨p.notesIn [item], some (missed.length, item)⟩ := by
    rw [firstAccepted, Logged.bind, h.accepted, entries_accepts, notesIn_singleton, Nat.zero_add]
    simp [Logged.pure]
  rw [enterFirst, h.split, h.missed.firstAccepted_append, hf, notesIn_append]
  simp [Logged.bind, entered, Logged.pure]

/-- A predicate that accepts no item keeps the array, with the notes of all items and one of its
own. -/
theorem RejectsAll.enterFirst_eq (h : p.RejectsAll items) :
  enterFirst p p.accepts (.array items)
    = ⟨p.notesIn items ++ [.noMatch p], some (.array items, [])⟩
  := by
  have hf := h.firstAccepted_append 0 []
  rw [List.append_nil] at hf
  rw [enterFirst, hf]
  simp [Logged.bind, firstAccepted, Logged.pure, Logged.note]

/-- In an array a predicate finds an element or the array itself. -/
theorem value_enterFirst_array_ne_none (p : Predicate) (items : List Json) :
  (enterFirst p p.accepts (.array items)).value ≠ none
  := by
  obtain ⟨missed, item, rest, h⟩ | h := p.firstMatch_or_rejectsAll items
  · rw [h.enterFirst_eq]
    nofun
  · rw [h.enterFirst_eq]
    nofun

end Predicate

/-! ### The notes of one segment -/

namespace Segment

/-- A segment enters its property and then its indexer. -/
theorem enter_of_descend {name : String} {node inner : Json}
    (h : node.descend (nameSteps name) = some inner) (indexer : Indexer) :
  (mk name (some indexer)).enter node
    = Entered.behind (indexer.enter name inner) (nameSteps name)
  := by
  rw [Segment.enter, enterProperty_of_descend h]
  rfl

/-- A segment whose property is not there notes that, and nothing else. -/
theorem enter_of_no_property {name : String} {node : Json} {note : Note}
    (h : enterProperty name node = .note note none) (indexer : Option Indexer) :
  (mk name indexer).enter node = .note note none
  := by
  cases indexer with
  | none => exact h
  | some indexer =>
    rw [Segment.enter, h]
    rfl

/-- A segment whose property is not there finds nothing. -/
theorem value_enter_of_no_property {name : String} {node : Json} {indexer : Option Indexer}
    (h : node.descend (nameSteps name) = none) :
  ((mk name indexer).enter node).value = none
  := by
  obtain ⟨note, -, he⟩ := fails_of_no_property h indexer
  rw [enter_of_no_property he]
  rfl

/-- A segment that selects nothing leaves one note, which says what it does not find. -/
theorem fails_of_enter {segment : Segment} {node : Json}
    (h : (segment.enter node).value = none) :
  ∃ note, segment.Fails node note ∧ (segment.enter node).entries = [note]
  := by
  obtain ⟨name, indexer⟩ := segment
  cases hd : node.descend (nameSteps name) with
  | none =>
    obtain ⟨note, hf, hn⟩ := fails_of_no_property hd indexer
    refine ⟨note, hf, ?_⟩
    rw [enter_of_no_property hn indexer]
    rfl
  | some inner =>
    cases indexer with
    | none =>
      rw [Segment.enter, enterProperty_of_descend hd] at h
      cases h
    | some indexer =>
      rw [enter_of_descend hd] at h ⊢
      cases indexer with
      | index i =>
        rw [Indexer.enter, enterIndex_eq] at h ⊢
        cases hc : inner.child (.index i) with
        | none => exact ⟨_, .notAddressable hd hc, rfl⟩
        | some item =>
          rw [hc] at h
          cases h
      | predicate p =>
        have ha : ∀ items, inner ≠ .array items := by
          rintro items rfl
          rw [Entered.value_behind, Indexer.enter] at h
          apply p.value_enterFirst_array_ne_none items (Option.map_eq_none_iff.mp h)
        rw [Indexer.enter, enterFirst_of_not_array ha]
        exact ⟨_, .notArray hd ha, rfl⟩
      | malformed raw => exact ⟨_, .malformed hd, rfl⟩

/-- A segment that fails selects nothing. -/
theorem Fails.value_enter {segment : Segment} {node : Json} {note : Note}
    (h : segment.Fails node note) :
  (segment.enter node).value = none
  := by
  cases h with
  | missingProperty hn h =>
    apply value_enter_of_no_property
    rw [nameSteps, if_neg hn, Json.descend_singleton, h]
  | notObject hn h =>
    apply value_enter_of_no_property
    rw [nameSteps, if_neg hn, Json.descend_singleton]
    cases node with
    | object members => exact absurd rfl (h members)
    | _ => rfl
  | notArray hi h =>
    rw [enter_of_descend hi, Indexer.enter, enterFirst_of_not_array h]
    rfl
  | notAddressable hi h =>
    rw [enter_of_descend hi, Indexer.enter, enterIndex_eq, h]
    rfl
  | malformed hi =>
    rw [enter_of_descend hi]
    rfl

/-- A segment without a predicate leaves no note where it selects something. -/
theorem entries_enter_of_no_predicate {segment : Segment}
    (hp : ∀ p, segment.indexer ≠ some (.predicate p)) {node : Json} {found : Json × List Step}
    (h : (segment.enter node).value = some found) :
  (segment.enter node).entries = []
  := by
  obtain ⟨name, indexer⟩ := segment
  cases hd : node.descend (nameSteps name) with
  | none =>
    rw [value_enter_of_no_property hd] at h
    cases h
  | some inner =>
    cases indexer with
    | none =>
      rw [Segment.enter, enterProperty_of_descend hd]
      rfl
    | some indexer =>
      rw [enter_of_descend hd] at h ⊢
      cases indexer with
      | index i =>
        rw [Indexer.enter, enterIndex_eq] at h ⊢
        cases hc : inner.child (.index i) with
        | none =>
          rw [hc] at h
          cases h
        | some item => rfl
      | predicate p => exact absurd rfl (hp p)
      | malformed raw => cases h

end Segment

/-! ### The notes of a walk -/

/-- The walk over the segments comes to one of them, at the value that those before it select. -/
structure ComesTo (segments : List Segment) (node : Json) (before : List Segment)
    (segment : Segment) (after : List Segment) (reached : Json) : Prop where
  split : segments = before ++ segment :: after
  value : (select before node).value = some reached

/-- Selecting enters the first segment and goes on from there. -/
theorem select_cons (segment : Segment) (rest : List Segment) (node : Json) :
  select (segment :: rest) node = (segment.enter node).andThen fun (part, _) => select rest part
  := by
  rw [select]

/-- A walk over two lists of segments goes on with the second where the first has led. -/
theorem select_append (a b : List Segment) (node : Json) :
  select (a ++ b) node = (select a node).andThen (select b)
  := by
  induction a generalizing node with
  | nil => rfl
  | cons segment rest ih =>
    rw [List.cons_append, select_cons, select_cons, Logged.andThen_assoc]
    congr 1
    funext ⟨part, steps⟩
    apply ih

section

variable {segments before after : List Segment} {node reached : Json}

/-- A walk that leads nowhere comes to a segment that fails there, and the note on that segment is
its last one. -/
theorem fails_of_select (h : (select segments node).value = none) :
  ∃ before segment after reached note, ComesTo segments node before segment after reached
    ∧ segment.Fails reached note
    ∧ (select segments node).entries = (select before node).entries ++ [note]
  := by
  induction segments generalizing node with
  | nil => cases h
  | cons segment rest ih =>
    cases he : (segment.enter node).value with
    | none =>
      obtain ⟨note, hf, hn⟩ := Segment.fails_of_enter he
      refine ⟨[], segment, rest, node, note, ⟨rfl, rfl⟩, hf, ?_⟩
      rw [select_cons, Logged.entries_andThen_of_none he, hn]
      rfl
    | some found =>
      obtain ⟨part, steps⟩ := found
      rw [select_cons, Logged.value_andThen, he] at h
      obtain ⟨before, failing, after, reached, note, hc, hf, hn⟩ := ih h
      refine ⟨segment :: before, failing, after, reached, note, ⟨?_, ?_⟩, hf, ?_⟩
      · rw [hc.split, List.cons_append]
      · rw [select_cons, Logged.value_andThen, he]
        exact hc.value
      · rw [select_cons, select_cons, Logged.entries_andThen he, Logged.entries_andThen he, hn,
          List.append_assoc]

/-- A walk that comes to a segment that fails there leads nowhere. -/
theorem ComesTo.value_of_fails {segment : Segment} {note : Note}
    (h : ComesTo segments node before segment after reached) (hf : segment.Fails reached note) :
  (select segments node).value = none
  := by
  rw [h.split, select_append, Logged.value_andThen, h.value, Option.bind_some, select_cons,
    Logged.value_andThen, hf.value_enter]
  rfl

/-- A walk without predicates leaves no note if it leads somewhere. -/
theorem entries_select_of_no_predicate
    (hp : ∀ segment ∈ segments, ∀ p, segment.indexer ≠ some (.predicate p)) {part : Json}
    (h : (select segments node).value = some part) :
  (select segments node).entries = []
  := by
  induction segments generalizing node with
  | nil => rfl
  | cons segment rest ih =>
    rw [select_cons, Logged.value_andThen] at h
    obtain ⟨⟨inner, steps⟩, he, hr⟩ := Option.bind_eq_some_iff.mp h
    rw [select_cons, Logged.entries_andThen he,
      Segment.entries_enter_of_no_predicate (hp segment List.mem_cons_self) he,
      ih (fun other hm => hp other (List.mem_cons_of_mem _ hm)) hr, List.append_nil]

/-- The notes of a walk are those from before a segment, those of the segment, and those from
behind it. -/
theorem ComesTo.entries_select {segment : Segment}
    (h : ComesTo segments node before segment after reached) {part : Json} {steps : List Step}
    (he : (segment.enter reached).value = some (part, steps)) :
  (select segments node).entries
    = (select before node).entries ++ (segment.enter reached).entries
      ++ (select after part).entries
  := by
  rw [h.split, select_append, Logged.entries_andThen h.value, select_cons,
    Logged.entries_andThen he, List.append_assoc]

variable {name : String} {p : Predicate} {items : List Json}

/-- The items behind the first match leave no note. -/
theorem ComesTo.entries_of_firstMatch
    (h : ComesTo segments node before (.mk name (some (.predicate p))) after reached)
    (hd : reached.descend (nameSteps name) = some (.array items)) {missed rest : List Json}
    {item : Json} (hm : p.FirstMatch items missed item rest) :
  (select segments node).entries
    = (select before node).entries ++ p.notesIn (missed ++ [item]) ++ (select after item).entries
  := by
  have he := Segment.enter_of_descend hd (.predicate p)
  rw [Indexer.enter, hm.enterFirst_eq] at he
  rw [h.entries_select (congrArg Logged.value he), he]
  rfl

/-- Without a match, the notes of all items stand before the one of the predicate. -/
theorem ComesTo.entries_of_rejectsAll
    (h : ComesTo segments node before (.mk name (some (.predicate p))) after reached)
    (hd : reached.descend (nameSteps name) = some (.array items)) (hm : p.RejectsAll items) :
  (select segments node).entries
    = (select before node).entries ++ (p.notesIn items ++ [.noMatch p])
      ++ (select after (.array items)).entries
  := by
  have he := Segment.enter_of_descend hd (.predicate p)
  rw [Indexer.enter, hm.enterFirst_eq] at he
  rw [h.entries_select (congrArg Logged.value he), he]
  rfl

end

/-! ### The notes of a path -/

theorem resolve_of_not_blank {path : String} (h : isBlankPath path = false) (node : Json) :
  resolve path node = select (parsePath path) node
  := by
  rw [resolve, h]
  rfl

/-- A blank path selects nothing and leaves no note.  Any other path selects nothing exactly if its
walk comes to a segment that fails, and then the last note says how; if the path has no predicate,
that note is the only one, and there is none where it selects something.  A predicate that is tried
on an array leaves the notes of its walks in the items up to the first match, or else in all items
and then one of its own, between the notes from before it and from behind it. -/
theorem notes_of_resolve (path : String) (node : Json) :
  (isBlankPath path = true → resolve path node = ⟨[], none⟩)
    ∧ (isBlankPath path = false →
      ((resolve path node).value = none
        ↔ ∃ before segment after reached note,
          ComesTo (parsePath path) node before segment after reached
            ∧ segment.Fails reached note
            ∧ (resolve path node).entries = (select before node).entries ++ [note])
      ∧ ((∀ segment ∈ parsePath path, ∀ p, segment.indexer ≠ some (.predicate p)) →
        ((resolve path node).value = none → (resolve path node).entries.length = 1)
          ∧ ((resolve path node).value ≠ none → (resolve path node).entries = []))
      ∧ ∀ before name p after reached items,
        ComesTo (parsePath path) node before (.mk name (some (.predicate p))) after reached →
        reached.descend (nameSteps name) = some (.array items) →
        (∀ missed item rest, p.FirstMatch items missed item rest →
          (resolve path node).entries
            = (select before node).entries ++ p.notesIn (missed ++ [item])
              ++ (select after item).entries)
        ∧ (p.RejectsAll items →
          (resolve path node).entries
            = (select before node).entries ++ (p.notesIn items ++ [.noMatch p])
              ++ (select after (.array items)).entries))
  := by
  constructor
  · intro hb
    rw [resolve, hb]
    rfl
  · intro hb
    rw [resolve_of_not_blank hb]
    refine ⟨⟨fails_of_select, ?_⟩, ?_, ?_⟩
    · rintro ⟨before, segment, after, reached, note, hc, hf, -⟩
      apply hc.value_of_fails hf
    · intro hp
      constructor
      · intro hn
        obtain ⟨before, segment, after, reached, note, hc, -, he⟩ := fails_of_select hn
        have hpb : ∀ other ∈ before, ∀ p, other.indexer ≠ some (.predicate p) := by
          intro other hm
          apply hp other
          rw [hc.split]
          apply List.mem_append_left _ hm
        rw [he, entries_select_of_no_predicate hpb hc.value]
        rfl
      · intro hn
        obtain ⟨part, hv⟩ := Option.ne_none_iff_exists'.mp hn
        apply entries_select_of_no_predicate hp hv
    · intro before name p after reached items hc hd
      constructor
      · intro missed item rest hm
        apply hc.entries_of_firstMatch hd hm
      · intro hm
        apply hc.entries_of_rejectsAll hd hm

/-- Three rows, of which the second is the first match and has no `z`. -/
def rowsWithMatch : Json :=
  .object [("rows", .array [.object [], .object [("k", .string "x")], .object []])]

/-- The first row has no `k`, and the match no `z`; the row behind the match is not tried. -/
theorem notes_of_resolve_rowsWithMatch :
  isBlankPath "rows[@.k==x].z" = false
    ∧ (resolve "rows[@.k==x].z" rowsWithMatch).entries
      = [.missingProperty "k", .missingProperty "z"]
    ∧ (resolve "rows[@.k==x].z" rowsWithMatch).value = none
  := by
  have hp : parsePath "rows[@.k==x].z"
      = [.mk "rows" (some (.predicate (.mk "k" [.mk "k" none] .equal "x"))), .mk "z" none] := by
    decide +kernel
  have hb : isBlankPath "rows[@.k==x].z" = false := by decide +kernel
  obtain ⟨hn, -, hm⟩ := (notes_of_resolve "rows[@.k==x].z" rowsWithMatch).2 hb
  have hr : ComesTo (parsePath "rows[@.k==x].z") rowsWithMatch []
      (.mk "rows" (some (.predicate (.mk "k" [.mk "k" none] .equal "x")))) [.mk "z" none]
      rowsWithMatch := ⟨hp, rfl⟩
  have hf : (Predicate.mk "k" [.mk "k" none] .equal "x").FirstMatch
      [.object [], .object [("k", .string "x")], .object []]
      [.object []] (.object [("k", .string "x")]) [.object []] := by
    refine ⟨rfl, ?_, rfl⟩
    intro other ho
    cases List.mem_singleton.mp ho
    rfl
  have he := (hm _ _ _ _ _ _ hr rfl).1 _ _ _ hf
  have hz : ComesTo (parsePath "rows[@.k==x].z") rowsWithMatch
      [.mk "rows" (some (.predicate (.mk "k" [.mk "k" none] .equal "x")))] (.mk "z" none) []
      (.object [("k", .string "x")]) := ⟨hp, rfl⟩
  have hk : (Segment.mk "z" none).Fails (.object [("k", .string "x")]) (.missingProperty "z") :=
    .missingProperty (by decide) rfl
  exact ⟨hb, he, hn.mpr ⟨_, _, _, _, _, hz, hk, he⟩⟩

end JsonAudit
