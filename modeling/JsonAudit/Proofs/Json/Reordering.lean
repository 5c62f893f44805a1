import JsonAudit.Json.Printer
import JsonAudit.Proofs.Json.Reading
import JsonAudit.Proofs.Keyed

/-!
# The order of members

Two values are `Reordered` if one becomes the other by reordering the members of objects in it, at
any depth.  If names are distinct, the values are then of one kind, and the parts that one step
leads to are reordered in turn: this is `Json.Twins.matched`.  JSON text shows the order of members,
but only objects and arrays have members in them, and their text begins with a brace or a bracket
(`Json.Twins.holds_render`).
-/

namespace JsonAudit

/-- The values are the same but for the order of the members of objects in them. -/
inductive Json.Reordered : Json → Json → Prop where
  | refl (value : Json) : Reordered value value
  | trans {a b c : Json} : Reordered a b → Reordered b c → Reordered a c
  /-- The members of the object stand in another order. -/
  | permute {members members' : List (String × Json)} :
    members.Perm members' → Reordered (.object members) (.object members')
  /-- The object has one member reordered. -/
  | member {before after : List (String × Json)} {name : String} {value value' : Json} :
    Reordered value value' →
    Reordered (.object (before ++ (name, value) :: after))
      (.object (before ++ (name, value') :: after))
  /-- The array has one element reordered. -/
  | element {before after : List Json} {item item' : Json} :
    Reordered item item' →
    Reordered (.array (before ++ item :: after)) (.array (before ++ item' :: after))

/-- The values are reordered and have distinct names. -/
structure Json.Twins (a b : Json) : Prop where
  reordered : a.Reordered b
  distinct : a.DistinctNames
  distinct' : b.DistinctNames

/-- The values are of one kind, and their parts are twins. -/
inductive Json.Matched : Json → Json → Prop where
  | same {value : Json} : value.DistinctNames → Matched value value
  | object {members members' : List (String × Json)} :
    (∀ name, Option.Rel Twins (Keyed.find? name members) (Keyed.find? name members')) →
    Matched (.object members) (.object members')
  | array {items items' : List Json} :
    List.Forall₂ Twins items items' → Matched (.array items) (.array items')

namespace Json

/-- A value with distinct names is a twin of itself. -/
theorem Twins.refl {value : Json} (h : value.DistinctNames) :
  value.Twins value
  := ⟨.refl value, h, h⟩

/-- Twins of twins are twins. -/
theorem Twins.trans {a b c : Json} (hab : a.Twins b) (hbc : b.Twins c) :
  a.Twins c
  := ⟨.trans hab.reordered hbc.reordered, hab.distinct, hbc.distinct'⟩

/-- What is found under a name in an object is a twin of itself. -/
theorem DistinctNames.rel_find? {members : List (String × Json)}
    (h : (object members).DistinctNames) (name : String) :
  Option.Rel Twins (Keyed.find? name members) (Keyed.find? name members)
  := by
  cases hf : Keyed.find? name members with
  | none => exact .none
  | some value => exact .some (.refl (h.of_mem (Keyed.mem_of_find? hf)))

/-- The elements of an array with distinct names at every level have them, too. -/
theorem DistinctNames.of_mem_array {items : List Json} (h : (array items).DistinctNames)
    {item : Json} (hm : item ∈ items) :
  item.DistinctNames
  := h.part (Part.element Part.self hm)

/-- Elements with distinct names are twins of themselves, one by one. -/
theorem DistinctNames.forall₂_twins {items : List Json} (h : ∀ item ∈ items, item.DistinctNames) :
  List.Forall₂ Twins items items
  := List.forall₂_same.mpr fun item hm => .refl (h item hm)

/-- What is a twin, or absent, in two steps is so in one. -/
theorem rel_twins_trans {x y z : Option Json} (hxy : Option.Rel Twins x y)
    (hyz : Option.Rel Twins y z) :
  Option.Rel Twins x z
  := by
  cases hxy with
  | none => apply hyz
  | some hab =>
    cases hyz with
    | some hbc => exact .some (hab.trans hbc)

/-- Lists of twins of twins are lists of twins. -/
theorem forall₂_twins_trans {items items' items'' : List Json}
    (h : List.Forall₂ Twins items items') (h' : List.Forall₂ Twins items' items'') :
  List.Forall₂ Twins items items''
  := by
  induction h generalizing items'' with
  | nil => apply h'
  | cons hab _ ih =>
    cases h' with
    | cons hbc hr => exact .cons (hab.trans hbc) (ih hr)

/-- A match of a match is a match. -/
theorem Matched.trans {a b c : Json} (hab : a.Matched b) (hbc : b.Matched c) :
  a.Matched c
  := by
  cases hab with
  | same => apply hbc
  | object h =>
    cases hbc with
    | same => exact .object h
    | object h' => exact .object fun name => rel_twins_trans (h name) (h' name)
  | array h =>
    cases hbc with
    | same => exact .array h
    | array h' => exact .array (forall₂_twins_trans h h')

/-! ### What reordering keeps -/

/-- An object has distinct names at every level exactly if its own are distinct and its values have
them. -/
theorem distinctNames_object_iff {members : List (String × Json)} :
  (object members).DistinctNames
    ↔ (Keyed.names members).Nodup ∧ ∀ entry ∈ members, entry.2.DistinctNames
  := by
  constructor
  · intro h
    exact ⟨h members .self, fun entry hm => h.of_mem hm⟩
  · rintro ⟨hn, hv⟩
    apply distinctNames_of_inner
    · rintro others ⟨⟩
      apply hn
    · intro part hp
      obtain ⟨entry, hm, rfl⟩ := List.mem_map.mp hp
      apply hv entry hm

/-- The order of members does not matter to whether names are distinct. -/
theorem DistinctNames.permute {members members' : List (String × Json)}
    (h : (object members).DistinctNames) (hp : members.Perm members') :
  (object members').DistinctNames
  := by
  obtain ⟨hn, hv⟩ := distinctNames_object_iff.mp h
  apply distinctNames_object_iff.mpr
  exact ⟨Keyed.nodup_names_of_perm hp hn, fun entry hm => hv entry (hp.mem_iff.mpr hm)⟩

/-- Names stay distinct if a value with distinct names takes the place of another under its name. -/
theorem DistinctNames.replace_member {before after : List (String × Json)} {name : String}
    {value value' : Json} (h : (object (before ++ (name, value) :: after)).DistinctNames)
    (hv : value'.DistinctNames) :
  (object (before ++ (name, value') :: after)).DistinctNames
  := by
  obtain ⟨hn, hd⟩ := distinctNames_object_iff.mp h
  apply distinctNames_object_iff.mpr
  constructor
  · simpa [Keyed.names] using hn
  · intro entry hm
    rcases List.mem_append.mp hm with hm | hm
    · apply hd entry (List.mem_append_left _ hm)
    · rcases List.mem_cons.mp hm with rfl | hm
      · apply hv
      · apply hd entry (List.mem_append_right _ (List.mem_cons_of_mem _ hm))

/-- Names stay distinct if an element with distinct names takes the place of another. -/
theorem DistinctNames.replace_element {before after : List Json} {item item' : Json}
    (h : (array (before ++ item :: after)).DistinctNames) (hi : item'.DistinctNames) :
  (array (before ++ item' :: after)).DistinctNames
  := by
  apply distinctNames_array
  intro value hm
  rcases List.mem_append.mp hm with hm | hm
  · apply h.of_mem_array (List.mem_append_left _ hm)
  · rcases List.mem_cons.mp hm with rfl | hm
    · apply hi
    · apply h.of_mem_array (List.mem_append_right _ (List.mem_cons_of_mem _ hm))

/-- Reordering keeps names distinct. -/
theorem Reordered.distinctNames {a b : Json} (h : a.Reordered b) (hd : a.DistinctNames) :
  b.DistinctNames
  := by
  induction h with
  | refl value => apply hd
  | trans _ _ ihab ihbc => apply ihbc (ihab hd)
  | permute hp => apply hd.permute hp
  | member _ ih => apply hd.replace_member (ih (hd.of_mem List.mem_append_cons_self))
  | element _ ih => apply hd.replace_element (ih (hd.of_mem_array List.mem_append_cons_self))

/-- What is reordered in a document with distinct names is a twin of it. -/
theorem Reordered.twins {a b : Json} (h : a.Reordered b) (hd : a.DistinctNames) :
  a.Twins b
  := ⟨h, hd, h.distinctNames hd⟩

/-- Reordered values are of one kind, and their parts are reordered. -/
theorem Reordered.matched {a b : Json} (h : a.Reordered b) (hd : a.DistinctNames) :
  a.Matched b
  := by
  induction h with
  | refl value => exact .same hd
  | trans hab _ ihab ihbc => exact (ihab hd).trans (ihbc (hab.distinctNames hd))
  | @permute members members' hp =>
    apply Matched.object
    intro name
    rw [← Keyed.find?_of_perm hp (hd members .self)]
    apply hd.rel_find?
  | @member before after name value value' hv =>
    apply Matched.object
    apply Keyed.forall₂_find?
    have hself : ∀ entry ∈ before ++ (name, value) :: after, entry.2.Twins entry.2 :=
      fun entry hm => .refl (hd.of_mem hm)
    apply List.rel_append
    · exact List.forall₂_same.mpr fun entry hm => ⟨rfl, hself entry (List.mem_append_left _ hm)⟩
    · apply List.Forall₂.cons
      · exact ⟨rfl, hv.twins (hd.of_mem List.mem_append_cons_self)⟩
      · exact List.forall₂_same.mpr fun entry hm =>
          ⟨rfl, hself entry (List.mem_append_right _ (List.mem_cons_of_mem _ hm))⟩
  | @element before after item item' hi =>
    have hself : ∀ value ∈ before ++ item :: after, value.DistinctNames :=
      fun value hm => hd.of_mem_array hm
    apply Matched.array
    apply List.rel_append
    · apply DistinctNames.forall₂_twins
      exact fun value hm => hself value (List.mem_append_left _ hm)
    · apply List.Forall₂.cons (hi.twins (hd.of_mem_array List.mem_append_cons_self))
      apply DistinctNames.forall₂_twins
      exact fun value hm => hself value (List.mem_append_right _ (List.mem_cons_of_mem _ hm))

/-- Twins match: they have one kind, and their parts are twins. -/
theorem Twins.matched {a b : Json} (h : a.Twins b) :
  a.Matched b
  := h.reordered.matched h.distinct

/-- Of twins both are null or none. -/
theorem Twins.isNull_eq {a b : Json} (h : a.Twins b) :
  a.isNull = b.isNull
  := by
  cases h.matched <;> rfl

/-! ### Rendering -/

end Json

/-- The text begins as the JSON text of an object or an array. -/
def opensContainer (text : String) : Bool :=
  text.toList.head?.any fun c => c == '\x7b' || c == '['

namespace Json

/-- The text of an object begins as a container does. -/
theorem opensContainer_object (members : List (String × Json)) :
  opensContainer (object members).render = true
  := by
  rw [render, text, opensContainer, String.toList_append, String.toList_append]
  · rfl
  · nofun

/-- The text of an array begins as a container does. -/
theorem opensContainer_array (items : List Json) :
  opensContainer (array items).render = true
  := by
  rw [render, text, opensContainer, String.toList_append, String.toList_append]
  · rfl
  · nofun

/-- Twins either render to the same text, or both are objects or arrays. -/
theorem Twins.render_cases {a b : Json} (h : a.Twins b) :
  a.render = b.render ∨ opensContainer a.render = true ∧ opensContainer b.render = true
  := by
  cases h.matched with
  | same =>
    left
    rfl
  | object =>
    right
    exact ⟨opensContainer_object _, opensContainer_object _⟩
  | array =>
    right
    exact ⟨opensContainer_array _, opensContainer_array _⟩

end Json

/-- An operator does not tell apart two texts that are both other than the literal. -/
theorem Operator.holds_of_ne {operator : Operator} {rendered rendered' literal : String}
    (h : rendered ≠ literal) (h' : rendered' ≠ literal) :
  operator.holds rendered literal = operator.holds rendered' literal
  := by
  cases operator with
  | equal => rw [holds, holds, beq_eq_false_iff_ne.mpr h, beq_eq_false_iff_ne.mpr h']
  | notEqual => rw [holds, holds, bne_iff_ne.mpr h, bne_iff_ne.mpr h']

/-- A literal that does not begin as an object or an array does cannot tell twins apart: it differs
from the texts of both, or both have the same text. -/
theorem Json.Twins.holds_render {a b : Json} (h : a.Twins b) (operator : Operator)
    {literal : String} (hl : opensContainer literal = false) :
  operator.holds a.render literal = operator.holds b.render literal
  := by
  have hne {rendered : String} (hr : opensContainer rendered = true) : rendered ≠ literal := by
    rintro rfl
    rw [hl] at hr
    cases hr
  rcases h.render_cases with he | ⟨ha, hb⟩
  · rw [he]
  · apply Operator.holds_of_ne (hne ha) (hne hb)

end JsonAudit
