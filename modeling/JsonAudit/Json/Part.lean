import JsonAudit.Path.Step

/-!
# Parts of a value

The parts of a JSON value are the value itself, the elements of its arrays and the values of the
members of its objects, at every depth.  A value has `DistinctNames` if no object in it has two
members with one name; then every part can be reached by steps.
-/

namespace JsonAudit.Json

/-- The values inside a value, itself included. -/
inductive Part (whole : Json) : Json → Prop where
  | self : Part whole whole
  | element {items : List Json} {item : Json} :
    Part whole (.array items) → item ∈ items → Part whole item
  | member {members : List (String × Json)} {name : String} {value : Json} :
    Part whole (.object members) → (name, value) ∈ members → Part whole value

/-- No object inside the value has two members with one name. -/
def DistinctNames (value : Json) : Prop :=
  ∀ members, value.Part (.object members) → (Keyed.names members).Nodup

/-- A part of a part is a part. -/
theorem Part.trans {a b c : Json} (hab : a.Part b) (hbc : b.Part c) :
  a.Part c
  := by
  induction hbc with
  | self => apply hab
  | element _ hm ih => apply Part.element ih hm
  | member _ hm ih => apply Part.member ih hm

/-- What a step leads to is a part. -/
theorem part_of_child {whole part : Json} {step : Step} (h : whole.child step = some part) :
  whole.Part part
  := by
  unfold child at h
  split at h
  · apply Part.member Part.self (Keyed.mem_of_find? h)
  · apply Part.element Part.self (List.mem_of_getElem? h)
  · cases h

/-- What steps lead to is a part. -/
theorem part_of_descend {whole part : Json} {steps : List Step}
    (h : whole.descend steps = some part) :
  whole.Part part
  := by
  induction steps generalizing whole with
  | nil =>
    cases h
    apply Part.self
  | cons step rest ih =>
    obtain ⟨inner, hc, hd⟩ := Option.bind_eq_some_iff.mp h
    apply (part_of_child hc).trans (ih hd)

/-- Names are distinct in every part if they are in the whole. -/
theorem DistinctNames.part {whole part : Json} (h : whole.DistinctNames)
    (hp : whole.Part part) :
  part.DistinctNames
  := fun members hm => h members (hp.trans hm)

/-- The elements of an array, and the values of the members of an object. -/
def inner : Json → List Json
  | array items => items
  | object members => members.map Prod.snd
  | _ => []

/-- A part is the whole or a part of one of the values in it. -/
theorem Part.eq_or_inner {whole part : Json} (h : whole.Part part) :
  part = whole ∨ ∃ value ∈ whole.inner, value.Part part
  := by
  induction h with
  | self =>
    left
    rfl
  | element _ hm ih =>
    right
    rcases ih with rfl | ⟨value, hv, hp⟩
    · exact ⟨_, hm, Part.self⟩
    · exact ⟨value, hv, Part.element hp hm⟩
  | member _ hm ih =>
    right
    rcases ih with rfl | ⟨value, hv, hp⟩
    · exact ⟨_, List.mem_map_of_mem hm, Part.self⟩
    · exact ⟨value, hv, Part.member hp hm⟩

/-- A value has distinct names if it has at its top, and the values in it have. -/
theorem distinctNames_of_inner {value : Json}
    (ht : ∀ members, value = .object members → (Keyed.names members).Nodup)
    (hi : ∀ part ∈ value.inner, part.DistinctNames) :
  value.DistinctNames
  := by
  intro members h
  rcases h.eq_or_inner with he | ⟨part, hm, hp⟩
  · apply ht members he.symm
  · apply hi part hm members hp

/-- A member is what its name leads to, if names are distinct. -/
theorem child_of_mem {members : List (String × Json)} {name : String} {value : Json}
    (h : (Json.object members).DistinctNames) (hm : (name, value) ∈ members) :
  (Json.object members).child (.key name) = some value
  := Keyed.find?_of_mem (h members .self) hm

end JsonAudit.Json
