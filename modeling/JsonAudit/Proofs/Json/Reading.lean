import JsonAudit.Json.Part
import JsonAudit.Session.Basic

/-!
# Documents that are read

In every document that is read the names of the members of an object are distinct
(`distinctNames_of_parseDocument`): a member whose name came before takes the place of the former
one.
-/

namespace JsonAudit

/-- A mapped result that succeeds comes from a success. -/
theorem exists_of_map_eq_ok {ε α β : Type} {x : Except ε α} {f : α → β} {b : β}
    (h : x.map f = .ok b) :
  ∃ a, x = .ok a ∧ f a = b
  := by
  cases x with
  | error => cases h
  | ok a => exact ⟨a, rfl, Except.ok.inj h⟩

/-- Mapping errors leaves a success as it is. -/
theorem of_mapError_eq_ok {ε ε' α : Type} {x : Except ε α} {f : ε → ε'} {a : α}
    (h : x.mapError f = .ok a) :
  x = .ok a
  := by
  cases x with
  | error => cases h
  | ok a => exact congrArg Except.ok (Except.ok.inj h)

namespace Json

/-- The values that the reader reads have distinct names. -/
def Reader.Distinct (reader : Reader) : Prop :=
  ∀ text r, reader text = .ok r → r.value.DistinctNames

variable {item : Reader}

/-- The values of an object with distinct names at every level have them, too. -/
theorem DistinctNames.of_mem {members : List (String × Json)} {name : String} {value : Json}
    (h : (object members).DistinctNames) (hm : (name, value) ∈ members) :
  value.DistinctNames
  := h.part (Part.member Part.self hm)

/-- A value without parts has no names that could be the same. -/
theorem distinctNames_of_inner_nil {value : Json} (h : value.inner = []) :
  value.DistinctNames
  := by
  apply distinctNames_of_inner
  · rintro members rfl
    rw [List.map_eq_nil_iff.mp h]
    apply List.nodup_nil
  · rw [h]
    rintro part ⟨⟩

/-- An array has distinct names at every level if its elements do. -/
theorem distinctNames_array {items : List Json} (h : ∀ value ∈ items, value.DistinctNames) :
  (array items).DistinctNames
  := by
  apply distinctNames_of_inner
  · rintro members ⟨⟩
  · apply h

/-- Entering a member keeps names distinct: it replaces one with its name. -/
theorem DistinctNames.insert {members : List (String × Json)} {value : Json}
    (h : (object members).DistinctNames) (hv : value.DistinctNames) (name : String) :
  (object (Keyed.insert name value members)).DistinctNames
  := by
  apply distinctNames_of_inner
  · rintro longer ⟨⟩
    apply Keyed.nodup_names_insert name value (h members .self)
  · intro part hp
    obtain ⟨⟨other, _⟩, hm, rfl⟩ := List.mem_map.mp hp
    rcases Keyed.mem_insert hm with he | hm
    · cases he
      apply hv
    · apply h.of_mem hm

/-- Elements have distinct names if what reads one of them sees to that. -/
theorem distinctNames_of_readItems (h : item.Distinct) {text : List Char}
    {r : Read (List Json) text} (hr : readItems item text = .ok r) :
  ∀ value ∈ r.value, value.DistinctNames
  := by
  fun_induction readItems item text with
  | case2 _ _ _ _ hi =>
    cases hr
    exact List.forall_mem_singleton.mpr (h _ _ hi)
  | case6 _ _ _ _ hi _ _ _ _ _ _ _ _ _ _ ho ih =>
    cases hr
    exact List.forall_mem_cons.mpr ⟨h _ _ hi, ih ho⟩
  | _ => cases hr

/-- The value behind a colon has distinct names. -/
theorem distinct_readMemberValue (h : item.Distinct) :
  (readMemberValue item).Distinct
  := by
  intro text r hr
  rw [readMemberValue] at hr
  split at hr
  · split at hr
    · cases hr
    · rename_i hi
      cases hr
      apply h _ _ hi
  · cases hr
  · cases hr

/-- The members read have distinct names together with those read before them. -/
theorem distinctNames_of_readMembers (h : item.Distinct) {members : List (String × Json)}
    (hm : (object members).DistinctNames) {text : List Char}
    {r : Read (List (String × Json)) text} (hr : readMembers item members text = .ok r) :
  (object r.value).DistinctNames
  := by
  fun_induction readMembers item members text with
  | case3 _ _ _ _ _ _ _ _ _ hv =>
    cases hr
    apply hm.insert (distinct_readMemberValue h _ _ hv)
  | case5 _ _ _ _ _ _ _ _ _ hv _ _ _ _ _ _ _ _ _ ho ih =>
    cases hr
    apply ih (hm.insert (distinct_readMemberValue h _ _ hv) _) ho
  | _ => cases hr

/-- An array that is read has distinct names. -/
theorem distinct_readArray (h : item.Distinct) :
  (readArray item).Distinct
  := by
  intro text r hr
  rw [readArray] at hr
  split at hr
  · cases hr
    apply distinctNames_of_inner_nil rfl
  · cases hr
  · split at hr
    · cases hr
    · rename_i hi
      cases hr
      apply distinctNames_array (distinctNames_of_readItems h hi)

/-- An object that is read has distinct names. -/
theorem distinct_readObject (h : item.Distinct) :
  (readObject item).Distinct
  := by
  intro text r hr
  rw [readObject] at hr
  split at hr
  · cases hr
    apply distinctNames_of_inner_nil rfl
  · split at hr
    · cases hr
    · rename_i hm
      cases hr
      apply distinctNames_of_readMembers h (distinctNames_of_inner_nil rfl) hm
  · cases hr
  · cases hr

/-- A constant that is read has distinct names if its value has them. -/
theorem distinct_readConstant {value : Json} (h : value.DistinctNames) (word : List Char) :
  (readConstant value word).Distinct
  := by
  intro text r hr
  unfold readConstant at hr
  split at hr
  · cases hr
  · split at hr
    · cases hr
    · cases hr
      apply h

/-- A value of any kind has distinct names, if those in its brackets have them. -/
theorem distinct_readWith {item : Option Reader} (h : ∀ reader ∈ item, reader.Distinct) :
  (readWith item).Distinct
  := by
  intro text r hr
  unfold readWith at hr
  split at hr
  · cases hr
  · apply distinct_readConstant (distinctNames_of_inner_nil rfl) _ _ _ hr
  · apply distinct_readConstant (distinctNames_of_inner_nil rfl) _ _ _ hr
  · apply distinct_readConstant (distinctNames_of_inner_nil rfl) _ _ _ hr
  · obtain ⟨_, -, rfl⟩ := exists_of_map_eq_ok hr
    apply distinctNames_of_inner_nil rfl
  · split at hr
    · cases hr
    · obtain ⟨_, hm, rfl⟩ := exists_of_map_eq_ok hr
      apply distinct_readArray (h _ rfl) _ _ hm
  · split at hr
    · cases hr
    · obtain ⟨_, hm, rfl⟩ := exists_of_map_eq_ok hr
      apply distinct_readObject (h _ rfl) _ _ hm
  · split at hr
    · obtain ⟨_, -, rfl⟩ := exists_of_map_eq_ok hr
      apply distinctNames_of_inner_nil rfl
    · cases hr

/-- Space before a value changes nothing about its names. -/
theorem distinct_afterSpace (h : item.Distinct) :
  (afterSpace item).Distinct
  := by
  intro text r hr
  rw [afterSpace] at hr
  split at hr
  · cases hr
  · rename_i hi
    cases hr
    apply h _ _ hi

/-- Names are distinct however deep the brackets are in which a value is read. -/
theorem distinct_readNested (brackets : Nat) :
  (readNested brackets).Distinct
  := by
  induction brackets with
  | zero =>
    apply distinct_afterSpace (distinct_readWith _)
    rintro reader ⟨⟩
  | succ brackets ih =>
    apply distinct_afterSpace (distinct_readWith _)
    rintro reader ⟨⟩
    apply ih

/-- A document that is read has distinct names at every level. -/
theorem distinctNames_of_read {text : String} {value : Json} (h : read text = .ok value) :
  value.DistinctNames
  := by
  have ha : readAll text.toList = .ok value := of_mapError_eq_ok h
  rw [readAll] at ha
  split at ha
  · cases ha
  · rename_i hn
    split at ha
    · cases ha
      apply distinct_readNested depthLimit _ _ hn
    · cases ha

end Json

/-- No object in a document that was read has two members with one name. -/
theorem distinctNames_of_parseDocument {text : String} {value : Json}
    (h : parseDocument text = .ok value) :
  value.DistinctNames
  := Json.distinctNames_of_read (of_mapError_eq_ok h)

end JsonAudit
